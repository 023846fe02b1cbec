import AnimaCore.Execution.Protection

/-!
# AnimaCore.Execution.Redaction — no secret is written, and every payload is read back

* `Redaction`: what the fragments of a string are, whatever the secrets are: they join to the string, no literal has a
  secret of the scope in it, and no two literals are adjacent.
-/

namespace AnimaCore

open Lib

/-! ## Fragments -/

def PersistedStringFragment.reveal (p : PersistenceProtection) : PersistedStringFragment → String
  | .literal value => value
  | .secretReference locator _ => (p.material locator).getD ""

def PersistedStringFragment.isLiteral : PersistedStringFragment → Bool
  | .literal _ => true
  | .secretReference _ _ => false

/-- The text that the fragments stand for, secrets for references. -/
def revealAll (p : PersistenceProtection) : List PersistedStringFragment → String
  | [] => ""
  | fragment :: rest => fragment.reveal p ++ revealAll p rest

/-- Fragments of which no two adjacent ones are literals. -/
def Apart (fragments : List PersistedStringFragment) : Prop :=
  fragments.IsChain fun a b => ¬(a.isLiteral = true ∧ b.isLiteral = true)

def Clean (p : PersistenceProtection) (scope : Option (String × ℕ)) (text : List Char) : Prop :=
  ∀ candidate ∈ p.candidates scope, ¬candidate.2.value.toList <:+: text

section

variable {S : Seal} {p : PersistenceProtection} {cursorKey : List UInt8} {scope : Option (String × ℕ)}

theorem revealAll_append (a b : List PersistedStringFragment) :
    revealAll p (a ++ b) = revealAll p a ++ revealAll p b := by
  induction a with
  | nil => exact String.empty_append.symm
  | cons fragment a ih => rw [List.cons_append, revealAll, ih, ← String.append_assoc]; rfl

/-- A reference is to a secret of the scope, and bound to it. -/
def Bound (S : Seal) (p : PersistenceProtection) (cursorKey : List UInt8) (scope : Option (String × ℕ))
    (fragment : PersistedStringFragment) : Prop :=
  ∀ locator binding, fragment = .secretReference locator binding →
    ∃ material, (locator, material) ∈ p.candidates scope ∧
      secretMaterialBinding S p cursorKey locator material.value = .ok binding

/-- **The fragments of a text**, as far as it is read. -/
structure Written (S : Seal) (p : PersistenceProtection) (cursorKey : List UInt8) (scope : Option (String × ℕ))
    (text : List Char) (fragments : List PersistedStringFragment) : Prop where
  text : text = (revealAll p fragments).toList
  clean : ∀ value, .literal value ∈ fragments → Clean p scope value.toList
  bound : ∀ fragment ∈ fragments, Bound S p cursorKey scope fragment
  apart : Apart fragments

/-- **The fragments of a string.** -/
structure Redaction (S : Seal) (p : PersistenceProtection) (cursorKey : List UInt8) (scope : Option (String × ℕ))
    (value : String) (fragments : List PersistedStringFragment) : Prop where
  written : Written S p cursorKey scope value.toList fragments
  ne : fragments ≠ []
  full : ∀ literal, .literal literal ∈ fragments → literal ≠ "" ∨ fragments.length = 1

theorem mem_candidates {candidate : PersistenceSecretLocator × PersistenceSecretMaterial} :
    candidate ∈ p.candidates scope ↔
      p.secrets[candidate.1]? = some candidate.2 ∧ PersistenceProtection.inScope scope candidate.1 = true := by
  unfold PersistenceProtection.candidates
  rw [List.mem_insertionSort, List.mem_filter, Table.mem_toList]

theorem material_of_candidate {locator : PersistenceSecretLocator} {material : PersistenceSecretMaterial}
    (h : (locator, material) ∈ p.candidates scope) : p.material locator = some material.value := by
  unfold PersistenceProtection.material
  rw [(mem_candidates.mp h).1]
  rfl

theorem material_ne_nil (material : PersistenceSecretMaterial) : material.value.toList ≠ [] := by
  intro h
  exact material.ne (String.toList_inj.mp h)

namespace Written

variable {text : List Char} {fragments : List PersistedStringFragment}

theorem nil : Written S p cursorKey scope [] [] :=
  ⟨rfl, fun _ h => absurd h List.not_mem_nil, fun _ h => absurd h List.not_mem_nil, .nil⟩

theorem literal (h : Written S p cursorKey scope text fragments) {more : List Char} (hclean : Clean p scope more)
    (hlast : ∀ fragment ∈ fragments.getLast?, fragment.isLiteral = false) :
    Written S p cursorKey scope (text ++ more) (fragments ++ [.literal (String.ofList more)]) := by
  refine ⟨?_, fun value hvalue => ?_, fun fragment hfragment => ?_, ?_⟩
  · rw [revealAll_append, String.toList_append, ← h.text]
    simp [revealAll, PersistedStringFragment.reveal]
  · rcases List.mem_append.mp hvalue with hvalue | hvalue
    · exact h.clean value hvalue
    · obtain rfl := PersistedStringFragment.literal.inj (List.mem_singleton.mp hvalue)
      rwa [String.toList_ofList]
  · rcases List.mem_append.mp hfragment with hfragment | hfragment
    · exact h.bound fragment hfragment
    · rw [List.mem_singleton.mp hfragment]
      intro locator binding heq
      cases heq
  · refine List.isChain_append.mpr ⟨h.apart, .singleton _, fun a ha b _ hboth => ?_⟩
    exact absurd hboth.1 (by rw [hlast a ha]; exact Bool.false_ne_true)

theorem reference (h : Written S p cursorKey scope text fragments) {locator : PersistenceSecretLocator}
    {material : PersistenceSecretMaterial} {binding : String} (hmem : (locator, material) ∈ p.candidates scope)
    (hbinding : secretMaterialBinding S p cursorKey locator material.value = .ok binding) :
    Written S p cursorKey scope (text ++ material.value.toList) (fragments ++ [.secretReference locator binding]) := by
  refine ⟨?_, fun value hvalue => ?_, fun fragment hfragment => ?_, ?_⟩
  · rw [revealAll_append, String.toList_append, ← h.text]
    simp [revealAll, PersistedStringFragment.reveal, material_of_candidate hmem]
  · rcases List.mem_append.mp hvalue with hvalue | hvalue
    · exact h.clean value hvalue
    · cases List.mem_singleton.mp hvalue
  · rcases List.mem_append.mp hfragment with hfragment | hfragment
    · exact h.bound fragment hfragment
    · rw [List.mem_singleton.mp hfragment]
      intro locator' binding' heq
      obtain ⟨rfl, rfl⟩ := PersistedStringFragment.secretReference.inj heq
      exact ⟨material, hmem, hbinding⟩
  · refine List.isChain_append.mpr ⟨h.apart, .singleton _, fun a ha b hb hboth => ?_⟩
    obtain rfl := Option.some.inj hb
    exact absurd hboth.2 Bool.false_ne_true

end Written

/-! ## The way out -/

/-- **The loop invariant** of `protect_string`: no secret begins in the literal that is being read, within what is left of
the value. -/
structure Redacting (S : Seal) (p : PersistenceProtection) (cursorKey : List UInt8) (scope : Option (String × ℕ))
    (value : List Char) (fragments : List PersistedStringFragment) (literal rest : List Char) : Prop where
  read : ∃ text, Written S p cursorKey scope text fragments ∧ value = text ++ literal ++ rest
  last : ∀ fragment ∈ fragments.getLast?, fragment.isLiteral = false
  full : ∀ value, .literal value ∈ fragments → value ≠ ""
  open_ : ∀ i < literal.length, ∀ candidate ∈ p.candidates scope,
    ¬candidate.2.value.toList <+: (literal ++ rest).drop i

namespace Redacting

variable {value literal rest : List Char} {fragments : List PersistedStringFragment}

theorem clean (h : Redacting S p cursorKey scope value fragments literal rest) : Clean p scope literal := by
  rintro candidate hmem ⟨before, after, heq⟩
  have hpos : 0 < candidate.2.value.toList.length := List.length_pos_iff.mpr (material_ne_nil candidate.2)
  refine h.open_ before.length ?_ candidate hmem ⟨after ++ rest, ?_⟩
  · rw [← heq, List.length_append, List.length_append]
    omega
  · rw [← heq, List.append_assoc, List.append_assoc, List.drop_left]

theorem step {c : Char} (h : Redacting S p cursorKey scope value fragments literal (c :: rest))
    (hnone : ∀ candidate ∈ p.candidates scope, ¬candidate.2.value.toList <+: c :: rest) :
    Redacting S p cursorKey scope value fragments (literal ++ [c]) rest := by
  obtain ⟨text, hwritten, heq⟩ := h.read
  refine ⟨⟨text, hwritten, by rw [heq]; simp⟩, h.last, h.full, fun i hi candidate hmem => ?_⟩
  rw [List.append_assoc, List.singleton_append]
  rw [List.length_append, List.length_singleton] at hi
  by_cases hlt : i < literal.length
  · exact h.open_ i hlt candidate hmem
  · obtain rfl : i = literal.length := by omega
    rw [List.drop_left]
    exact hnone candidate hmem

theorem flush (h : Redacting S p cursorKey scope value fragments literal rest) :
    ∃ text, Written S p cursorKey scope text
        (if literal ≠ [] then fragments ++ [.literal (String.ofList literal)] else fragments) ∧
      value = text ++ rest ∧
      ∀ value, .literal value ∈ (if literal ≠ [] then fragments ++ [.literal (String.ofList literal)] else fragments) →
        value ≠ "" := by
  obtain ⟨text, hwritten, heq⟩ := h.read
  by_cases hne : literal ≠ []
  · rw [if_pos hne]
    refine ⟨text ++ literal, hwritten.literal h.clean h.last, heq, fun value hvalue => ?_⟩
    rcases List.mem_append.mp hvalue with hvalue | hvalue
    · exact h.full value hvalue
    · obtain rfl := PersistedStringFragment.literal.inj (List.mem_singleton.mp hvalue)
      intro hempty
      exact hne (by simpa using congrArg String.toList hempty)
  · rw [if_neg hne]
    obtain rfl : literal = [] := not_not.mp hne
    exact ⟨text, hwritten, by rw [heq, List.append_nil], h.full⟩

end Redacting

theorem protectStringFrom_nil (fuel : ℕ) (fragments : List PersistedStringFragment) (literal : List Char) :
    protectStringFrom S p cursorKey (p.candidates scope) fuel fragments literal [] =
      if literal ≠ [] ∨ fragments = [] then .ok (fragments ++ [.literal (String.ofList literal)]) else .ok fragments := by
  cases fuel <;> rfl

theorem protectStringFrom_none {c : Char} {rest : List Char} (h : ∀ candidate ∈ p.candidates scope,
    ¬candidate.2.value.toList <+: c :: rest) (fuel : ℕ) (fragments : List PersistedStringFragment) (literal : List Char) :
    protectStringFrom S p cursorKey (p.candidates scope) (fuel + 1) fragments literal (c :: rest) =
      protectStringFrom S p cursorKey (p.candidates scope) fuel fragments (literal ++ [c]) rest := by
  have hfind : ((p.candidates scope).find? fun candidate => candidate.2.value.toList.isPrefixOf (c :: rest)) = none :=
    List.find?_eq_none.mpr fun candidate hmem hprefix => h candidate hmem (List.isPrefixOf_iff_prefix.mp hprefix)
  rw [protectStringFrom, hfind]

theorem protectStringFrom_some {c : Char} {rest : List Char} {candidate : PersistenceSecretLocator × PersistenceSecretMaterial}
    (h : ((p.candidates scope).find? fun candidate => candidate.2.value.toList.isPrefixOf (c :: rest)) = some candidate)
    (fuel : ℕ) (fragments : List PersistedStringFragment) (literal : List Char) :
    protectStringFrom S p cursorKey (p.candidates scope) (fuel + 1) fragments literal (c :: rest) = (do
      let binding ← secretMaterialBinding S p cursorKey candidate.1 candidate.2.value
      protectStringFrom S p cursorKey (p.candidates scope) fuel
        ((if literal ≠ [] then fragments ++ [.literal (String.ofList literal)] else fragments) ++
          [.secretReference candidate.1 binding]) [] ((c :: rest).drop candidate.2.value.toList.length)) := by
  rw [protectStringFrom, h]

theorem find_cases (p : PersistenceProtection) (scope : Option (String × ℕ)) (text : List Char) :
    (∃ candidate ∈ p.candidates scope, candidate.2.value.toList <+: text ∧
        ((p.candidates scope).find? fun candidate => candidate.2.value.toList.isPrefixOf text) = some candidate) ∨
      ∀ candidate ∈ p.candidates scope, ¬candidate.2.value.toList <+: text := by
  rcases hfind : (p.candidates scope).find? fun candidate => candidate.2.value.toList.isPrefixOf text with _ | candidate
  · refine .inr fun candidate hmem hprefix => ?_
    exact List.find?_eq_none.mp hfind candidate hmem (List.isPrefixOf_iff_prefix.mpr hprefix)
  · have hprefix := List.find?_some hfind
    exact .inl ⟨candidate, List.mem_of_find?_eq_some hfind, List.isPrefixOf_iff_prefix.mp hprefix, hfind⟩

theorem protectString_end {fuel : ℕ} {value literal : List Char} {fragments out : List PersistedStringFragment}
    (h : Redacting S p cursorKey scope value fragments literal [])
    (hout : protectStringFrom S p cursorKey (p.candidates scope) fuel fragments literal [] = .ok out) :
    Redaction S p cursorKey scope (String.ofList value) out := by
  obtain ⟨text, hwritten, heq⟩ := h.read
  rw [List.append_nil] at heq
  rw [protectStringFrom_nil] at hout
  by_cases hmore : literal ≠ [] ∨ fragments = []
  · rw [if_pos hmore] at hout
    obtain rfl := Except.ok.inj hout
    refine ⟨?_, by simp, fun value' hvalue => ?_⟩
    · rw [String.toList_ofList, heq]
      exact hwritten.literal h.clean h.last
    · rcases List.mem_append.mp hvalue with hvalue | hvalue
      · exact .inl (h.full value' hvalue)
      · obtain rfl := PersistedStringFragment.literal.inj (List.mem_singleton.mp hvalue)
        rcases hmore with hne | rfl
        · exact .inl fun hempty => hne (by simpa using congrArg String.toList hempty)
        · exact .inr rfl
  · rw [if_neg hmore] at hout
    obtain rfl := Except.ok.inj hout
    obtain ⟨hempty, hne⟩ := not_or.mp hmore
    obtain rfl : literal = [] := not_not.mp hempty
    refine ⟨?_, hne, fun value' hvalue => .inl (h.full value' hvalue)⟩
    rw [String.toList_ofList, heq, List.append_nil]
    exact hwritten

theorem protectStringFrom_redaction {fuel : ℕ} {value literal rest : List Char}
    {fragments out : List PersistedStringFragment} (h : Redacting S p cursorKey scope value fragments literal rest)
    (hout : protectStringFrom S p cursorKey (p.candidates scope) fuel fragments literal rest = .ok out) :
    Redaction S p cursorKey scope (String.ofList value) out := by
  induction fuel generalizing fragments literal rest with
  | zero =>
    cases rest with
    | nil => exact protectString_end h hout
    | cons c rest => cases hout
  | succ fuel ih =>
    cases rest with
    | nil => exact protectString_end h hout
    | cons c rest =>
      rcases find_cases p scope (c :: rest) with ⟨candidate, hmem, ⟨after, hafter⟩, hfind⟩ | hnone
      · rw [protectStringFrom_some hfind] at hout
        obtain ⟨binding, hbinding, hout⟩ := bind_eq_ok.mp hout
        obtain ⟨text, hwritten, heq, hfull⟩ := h.flush
        refine ih ⟨⟨_, hwritten.reference hmem hbinding, ?_⟩, ?_, ?_, ?_⟩ hout
        · rw [heq, ← hafter, List.drop_left, List.append_nil, List.append_assoc]
        · intro fragment hfragment
          rw [List.getLast?_concat] at hfragment
          obtain rfl := Option.some.inj hfragment
          rfl
        · intro literal' hliteral
          rcases List.mem_append.mp hliteral with hliteral | hliteral
          · exact hfull literal' hliteral
          · cases List.mem_singleton.mp hliteral
        · intro i hi
          exact absurd hi (Nat.not_lt_zero i)
      · rw [protectStringFrom_none hnone] at hout
        exact ih (h.step hnone) hout

theorem protectString_redaction {value : String} {out : List PersistedStringFragment}
    (h : protectString S p cursorKey scope value = .ok out) : Redaction S p cursorKey scope value out := by
  have hstart : Redacting S p cursorKey scope value.toList [] [] value.toList :=
    ⟨⟨[], .nil, rfl⟩, fun _ h => absurd h (by simp), fun _ h => absurd h List.not_mem_nil,
      fun i hi => absurd hi (Nat.not_lt_zero i)⟩
  have hout := protectStringFrom_redaction hstart h
  rwa [String.ofList_toList] at hout

theorem protectStringFrom_total (hjcs : ∀ locator, (S.jcs locator).isSome) {fuel : ℕ} {rest : List Char}
    (hfuel : rest.length ≤ fuel) (fragments : List PersistedStringFragment) (literal : List Char) :
    ∃ out, protectStringFrom S p cursorKey (p.candidates scope) fuel fragments literal rest = .ok out := by
  have hend : ∀ fuel fragments literal,
      ∃ out, protectStringFrom S p cursorKey (p.candidates scope) fuel fragments literal [] = .ok out := by
    intro fuel fragments literal
    rw [protectStringFrom_nil]
    by_cases hmore : literal ≠ [] ∨ fragments = []
    · exact ⟨_, if_pos hmore⟩
    · exact ⟨_, if_neg hmore⟩
  induction fuel generalizing fragments literal rest with
  | zero =>
    obtain rfl : rest = [] := List.length_eq_zero_iff.mp (by omega)
    exact hend _ _ _
  | succ fuel ih =>
    cases rest with
    | nil => exact hend _ _ _
    | cons c rest =>
      rw [List.length_cons] at hfuel
      rcases find_cases p scope (c :: rest) with ⟨candidate, -, -, hfind⟩ | hnone
      · obtain ⟨encoded, hencoded⟩ := Option.isSome_iff_exists.mp (hjcs candidate.1)
        have hpos : 0 < candidate.2.value.toList.length := List.length_pos_iff.mpr (material_ne_nil candidate.2)
        have hdrop : ((c :: rest).drop candidate.2.value.toList.length).length ≤ fuel := by
          rw [List.length_drop, List.length_cons]
          omega
        rw [protectStringFrom_some hfind, secretMaterialBinding, hencoded]
        exact ih hdrop _ _
      · rw [protectStringFrom_none hnone]
        exact ih (by omega) _ _

theorem protectString_total (hjcs : ∀ locator, (S.jcs locator).isSome) (value : String) :
    ∃ out, protectString S p cursorKey scope value = .ok out := protectStringFrom_total hjcs le_rfl [] []

/-! ## The way back -/

/-- Every locator of the inventory passes its check. -/
def PersistenceProtection.Valid (p : PersistenceProtection) : Prop :=
  ∀ (locator : PersistenceSecretLocator) (material : PersistenceSecretMaterial),
    p.secrets[locator]? = some material → locator.validate = .ok ()

theorem constantTimeEq_self (bytes : List UInt8) : constantTimeEq bytes bytes = true := by
  have hfold : (bytes.zip bytes).foldl (fun difference pair => difference ||| (pair.1 ^^^ pair.2)) (0 : UInt8) = 0 := by
    induction bytes with
    | nil => rfl
    | cons b bytes ih => simpa using ih
  unfold constantTimeEq
  rw [hfold]
  simp

theorem binding_size {locator : PersistenceSecretLocator} {material binding : String}
    (h : secretMaterialBinding S p cursorKey locator material = .ok binding) :
    binding.utf8ByteSize = snapshotHmacHexBytes := by
  have hdigit : ∀ n, (String.utf8EncodeChar (snapshotHexDigit n)).length = 1 := by
    intro n
    by_cases hn : n < 16
    · have hall : ∀ n < 16, (String.utf8EncodeChar (snapshotHexDigit n)).length = 1 := by decide +kernel
      exact hall n hn
    · have hdefault : snapshotHexDigit n = '0' := by
        unfold snapshotHexDigit
        rw [List.getD_eq_getElem?_getD, List.getElem?_eq_none]
        · rfl
        · exact (show "0123456789abcdef".toList.length = 16 by decide +kernel).le.trans (not_lt.mp hn)
      rw [hdefault]
      decide
  have hsize : ∀ bytes : List UInt8, (encodeSnapshotHex bytes).utf8ByteSize = 2 * bytes.length := by
    intro bytes
    unfold encodeSnapshotHex String.utf8ByteSize
    rw [String.toByteArray_ofList, List.utf8Encode, List.size_toByteArray]
    induction bytes with
    | nil => rfl
    | cons b bytes ih =>
      rw [List.flatMap_cons, List.flatMap_append, List.length_append, ih, List.length_cons]
      simp only [List.flatMap_cons, List.flatMap_nil, List.append_nil, List.length_append, hdigit]
      omega
  obtain ⟨encoded, -, h⟩ := bind_eq_ok.mp h
  obtain rfl := Except.ok.inj h
  rw [hsize, Vector.length_toList]
  rfl

theorem restoreFragment_eq (hvalid : p.Valid) {fragment : PersistedStringFragment} {count : ℕ} {acc : String} {flag : Bool}
    (hbound : Bound S p cursorKey scope fragment) (hflag : ¬(flag = true ∧ fragment.isLiteral = true))
    (hfull : fragment = .literal "" → count = 1)
    (hsize : (acc ++ fragment.reveal p).utf8ByteSize ≤ maxCapabilityArgumentBytes) :
    restoreFragment S p cursorKey count (acc, flag) fragment = .ok (acc ++ fragment.reveal p, fragment.isLiteral) := by
  cases fragment with
  | literal value =>
    have hlocal : value.utf8ByteSize ≤ maxCapabilityArgumentBytes := by
      rw [String.utf8ByteSize_append] at hsize
      exact (Nat.le_add_left _ _).trans hsize
    unfold restoreFragment
    simp only [bind_eq_ok, ensure_eq_ok, exists_const]
    refine ⟨?_, hlocal, _, rfl, hsize, rfl⟩
    rintro (hprevious | ⟨rfl, hcount⟩)
    · exact hflag ⟨hprevious, rfl⟩
    · exact hcount (hfull rfl)
  | secretReference locator binding =>
    obtain ⟨material, hmem, hbinding⟩ := hbound locator binding rfl
    have hreveal : (PersistedStringFragment.secretReference locator binding).reveal p = material.value := by
      show (p.material locator).getD "" = material.value
      rw [material_of_candidate hmem]
      rfl
    rw [hreveal] at hsize ⊢
    unfold restoreFragment
    simp only [bind_eq_ok, ensure_eq_ok, okOr_eq_ok, exists_const]
    exact ⟨binding_size hbinding, (), hvalid _ _ (mem_candidates.mp hmem).1, _, material_of_candidate hmem, _, hbinding,
      constantTimeEq_self _, _, rfl, hsize, rfl⟩

theorem restoreFragments_eq (hvalid : p.Valid) {count : ℕ} {fragments : List PersistedStringFragment} {acc : String}
    {flag : Bool} (hbound : ∀ fragment ∈ fragments, Bound S p cursorKey scope fragment) (hapart : Apart fragments)
    (hflag : ∀ fragment ∈ fragments.head?, ¬(flag = true ∧ fragment.isLiteral = true))
    (hfull : .literal "" ∈ fragments → count = 1)
    (hsize : (acc ++ revealAll p fragments).utf8ByteSize ≤ maxCapabilityArgumentBytes) :
    ∃ last, fragments.foldlM (restoreFragment S p cursorKey count) (acc, flag) = .ok (acc ++ revealAll p fragments, last) := by
  induction fragments generalizing acc flag with
  | nil => exact ⟨flag, by rw [revealAll, String.append_empty]; rfl⟩
  | cons fragment rest ih =>
    rw [revealAll, ← String.append_assoc] at hsize ⊢
    have hfirst : (acc ++ fragment.reveal p).utf8ByteSize ≤ maxCapabilityArgumentBytes := by
      rw [String.utf8ByteSize_append] at hsize
      exact (Nat.le_add_right _ _).trans hsize
    have hstep : restoreFragment S p cursorKey count (acc, flag) fragment = .ok (acc ++ fragment.reveal p, fragment.isLiteral) :=
      restoreFragment_eq hvalid (hbound fragment List.mem_cons_self) (hflag fragment rfl)
        (fun heq => hfull (heq ▸ List.mem_cons_self)) hfirst
    have hchain := List.isChain_cons.mp hapart
    obtain ⟨last, hrest⟩ := ih (fun f hf => hbound f (List.mem_cons_of_mem fragment hf)) hchain.2
      (fun f hf => hchain.1 f hf) (fun hf => hfull (List.mem_cons_of_mem fragment hf)) hsize
    refine ⟨last, ?_⟩
    rw [List.foldlM_cons, hstep]
    exact hrest

theorem restoreString_redaction (hvalid : p.Valid) {value : String} {fragments : List PersistedStringFragment}
    (h : Redaction S p cursorKey scope value fragments) (hsize : value.utf8ByteSize ≤ maxCapabilityArgumentBytes)
    (hcount : fragments.length ≤ maxPersistedStringFragments) : restoreString S p cursorKey fragments = .ok value := by
  have hvalue : revealAll p fragments = value := String.toList_inj.mp h.written.text.symm
  have hall : ∃ last, fragments.foldlM (restoreFragment S p cursorKey fragments.length) ("", false) =
      .ok ("" ++ revealAll p fragments, last) :=
    restoreFragments_eq hvalid h.written.bound h.written.apart (fun _ _ hflag => Bool.false_ne_true hflag.1)
      (fun hmem => (h.full "" hmem).resolve_left fun hne => hne rfl) (by rwa [String.empty_append, hvalue])
  obtain ⟨last, hfold⟩ := hall
  unfold restoreString
  simp only [bind_eq_ok, ensure_eq_ok, exists_const]
  refine ⟨⟨h.ne, hcount⟩, _, hfold, ?_⟩
  rw [String.empty_append, hvalue]

/-! ## Inventories -/

theorem PersistenceProtection.new_valid {sealKey : List UInt8} {inventories : List PersistenceCapabilitySecretInventory}
    (h : PersistenceProtection.new sealKey inventories = .ok p) : p.Valid := by
  obtain ⟨b, hb, h⟩ := bind_eq_ok.mp h
  obtain rfl := Except.ok.inj h
  have hmaterials : ∀ (inventory : PersistenceCapabilitySecretInventory) (entries : List (PersistenceSecretMaterial × ℕ))
      (b b' : PersistenceProtection.Builder),
      (∀ (l : PersistenceSecretLocator) (m : PersistenceSecretMaterial), b.secrets[l]? = some m → l.validate = .ok ()) →
      entries.foldlM (PersistenceProtection.addMaterial inventory) b = .ok b' →
      ∀ (l : PersistenceSecretLocator) (m : PersistenceSecretMaterial), b'.secrets[l]? = some m → l.validate = .ok () := by
    intro inventory entries b b' hvalid hfold
    refine foldlM_induction (P := fun _ (b : PersistenceProtection.Builder) => ∀ (l : PersistenceSecretLocator)
      (m : PersistenceSecretMaterial), b.secrets[l]? = some m → l.validate = .ok ()) hfold hvalid ?_
    intro pre entry post b b' _ hvalid hstep
    unfold PersistenceProtection.addMaterial at hstep
    simp only [bind_eq_ok, ensure_eq_ok, exists_const] at hstep
    obtain ⟨-, hlocator, hcheck, -, -, hstep⟩ := hstep
    obtain rfl := Except.ok.inj hstep
    intro l m hl
    rw [Table.getElem?_insert_eq] at hl
    by_cases heq : (⟨inventory.capabilityId, inventory.manifestVersion, entry.2⟩ : PersistenceSecretLocator) = l
    · rw [← heq]
      exact hcheck
    · rw [if_neg heq] at hl
      exact hvalid l m hl
  refine foldlM_induction (P := fun _ (b : PersistenceProtection.Builder) => ∀ (l : PersistenceSecretLocator)
    (m : PersistenceSecretMaterial), b.secrets[l]? = some m → l.validate = .ok ()) hb ?_ ?_
  · intro l m hl
    rw [Std.ExtTreeMap.getElem?_empty] at hl
    cases hl
  · intro pre inventory post b b' _ hvalid hstep
    unfold PersistenceProtection.addInventory at hstep
    simp only [bind_eq_ok, ensure_eq_ok, exists_const] at hstep
    refine hmaterials inventory _ _ _ ?_ hstep.2
    exact hvalid

/-! ## JSON values -/

mutual

def Value.restoreNodes : Value → ℕ
  | .array values => 1 + Value.restoreNodesList values
  | .object entries => 1 + Value.restoreNodesEntries entries
  | _ => 1

def Value.restoreNodesList : List Value → ℕ
  | [] => 0
  | value :: rest => value.restoreNodes + Value.restoreNodesList rest

def Value.restoreNodesEntries : List (String × Value) → ℕ
  | [] => 0
  | (_, value) :: rest => 1 + value.restoreNodes + Value.restoreNodesEntries rest

end

mutual

/-- How deep the way back goes; a key is a node of its own. -/
def Value.restoreDepth : Value → ℕ
  | .array values => 1 + Value.restoreDepthList values
  | .object entries => 1 + Value.restoreDepthEntries entries
  | _ => 1

def Value.restoreDepthList : List Value → ℕ
  | [] => 0
  | value :: rest => max value.restoreDepth (Value.restoreDepthList rest)

def Value.restoreDepthEntries : List (String × Value) → ℕ
  | [] => 0
  | (_, value) :: rest => max (max 1 value.restoreDepth) (Value.restoreDepthEntries rest)

end

/-- A string is within the limits of `restore_string`. -/
def StringFits (S : Seal) (p : PersistenceProtection) (cursorKey : List UInt8) (scope : Option (String × ℕ)) (value : String) :
    Prop :=
  value.utf8ByteSize ≤ maxCapabilityArgumentBytes ∧
    ∀ fragments, protectString S p cursorKey scope value = .ok fragments → fragments.length ≤ maxPersistedStringFragments

mutual

/-- The strings and the collections of a value are within the limits, and its objects are maps. -/
def ValueFits (S : Seal) (p : PersistenceProtection) (cursorKey : List UInt8) (scope : Option (String × ℕ)) : Value → Prop
  | .string value => StringFits S p cursorKey scope value
  | .array values => values.length ≤ maxPersistedJsonCollectionEntries ∧ ValuesFit S p cursorKey scope values
  | .object entries => entries.length ≤ maxPersistedJsonCollectionEntries ∧ EntriesFit S p cursorKey scope entries
  | _ => True

def ValuesFit (S : Seal) (p : PersistenceProtection) (cursorKey : List UInt8) (scope : Option (String × ℕ)) :
    List Value → Prop
  | [] => True
  | value :: rest => ValueFits S p cursorKey scope value ∧ ValuesFit S p cursorKey scope rest

def EntriesFit (S : Seal) (p : PersistenceProtection) (cursorKey : List UInt8) (scope : Option (String × ℕ)) :
    List (String × Value) → Prop
  | [] => True
  | (key, value) :: rest =>
    StringFits S p cursorKey scope key ∧ ValueFits S p cursorKey scope value ∧
      (∀ entry ∈ rest, compare key entry.1 = .lt) ∧ EntriesFit S p cursorKey scope rest

end

theorem insertEntry_last {key : String} {value : Value} {map : List (String × Value)}
    (h : ∀ entry ∈ map, compare entry.1 key = .lt) : insertEntry key value map = some (map ++ [(key, value)]) := by
  induction map with
  | nil => rfl
  | cons entry map ih =>
    have hgt : compare key entry.1 = .gt := Std.OrientedCmp.gt_iff_lt.mpr (h entry List.mem_cons_self)
    rw [insertEntry, hgt, ih fun e he => h e (List.mem_cons_of_mem entry he)]
    rfl

theorem enter_eq {n d : ℕ} (hn : n + 1 ≤ maxPersistedJsonNodes) (hd : d + 1 ≤ maxPersistedJsonDepth) :
    (⟨n, d⟩ : RestoreJsonBudget).enter = .ok ⟨n + 1, d + 1⟩ := by
  unfold RestoreJsonBudget.enter
  unfold maxPersistedJsonNodes at hn
  unfold maxPersistedJsonDepth at hd
  simp only [bind_eq_ok, ensure_eq_ok, okOr_eq_ok, checkedAdd_eq_some, exists_const]
  exact ⟨n + 1, ⟨by omega, rfl⟩, d + 1, ⟨by omega, rfl⟩, ⟨hn, hd⟩, rfl⟩

theorem leave_eq (n d : ℕ) : (⟨n, d + 1⟩ : RestoreJsonBudget).leave = .ok ⟨n, d⟩ := rfl

theorem protectValues_length {pointer : String} {index : ℕ} {values : List Value} {out : List PersistedJsonValue}
    (h : protectValues S p cursorKey scope pointer index values = .ok out) : out.length = values.length := by
  induction values generalizing index out with
  | nil =>
    unfold protectValues at h
    rw [← Except.ok.inj h]
    rfl
  | cons value rest ih =>
    unfold protectValues at h
    simp only [bind_eq_ok] at h
    obtain ⟨first, -, more, hmore, h⟩ := h
    obtain rfl := Except.ok.inj h
    rw [List.length_cons, ih hmore, List.length_cons]

theorem protectEntries_length {pointer : String} {index : ℕ} {entries : List (String × Value)}
    {out : List (PersistedJsonValue × PersistedJsonValue)}
    (h : protectEntries S p cursorKey scope pointer index entries = .ok out) : out.length = entries.length := by
  induction entries generalizing index out with
  | nil =>
    unfold protectEntries at h
    rw [← Except.ok.inj h]
    rfl
  | cons entry rest ih =>
    unfold protectEntries at h
    simp only [bind_eq_ok] at h
    obtain ⟨fragments, -, first, -, more, hmore, h⟩ := h
    obtain rfl := Except.ok.inj h
    rw [List.length_cons, ih hmore, List.length_cons]

theorem restore_protect_string (hvalid : p.Valid) {value pointer : String} {fragments : List PersistedStringFragment} {n d : ℕ}
    (hfits : StringFits S p cursorKey scope value) (hprotect : protectString S p cursorKey scope value = .ok fragments)
    (hn : n + 1 ≤ maxPersistedJsonNodes) (hd : d + 1 ≤ maxPersistedJsonDepth) :
    restoreJsonWithBudget S p cursorKey pointer ⟨n, d⟩ (.string pointer fragments) = .ok (.string value, ⟨n + 1, d⟩) := by
  have hrestore := restoreString_redaction hvalid (protectString_redaction hprotect) hfits.1 (hfits.2 _ hprotect)
  unfold restoreJsonWithBudget
  simp only [bind_eq_ok, ensure_eq_ok, exists_const]
  exact ⟨_, enter_eq hn hd, trivial, value, hrestore, _, leave_eq _ _, rfl⟩

mutual

theorem restore_protect (hvalid : p.Valid) : ∀ (value : Value) (pointer : String) (n d : ℕ) (out : PersistedJsonValue),
    ValueFits S p cursorKey scope value → protectJson S p cursorKey scope pointer value = .ok out →
    n + value.restoreNodes ≤ maxPersistedJsonNodes → d + value.restoreDepth ≤ maxPersistedJsonDepth →
    restoreJsonWithBudget S p cursorKey pointer ⟨n, d⟩ out = .ok (value, ⟨n + value.restoreNodes, d⟩)
  | .null, pointer, n, d, out => by
    intro _ hout hn hd
    obtain rfl := Except.ok.inj hout
    unfold restoreJsonWithBudget
    simp only [bind_eq_ok, ensure_eq_ok, exists_const]
    exact ⟨_, enter_eq hn hd, trivial, _, leave_eq _ _, rfl⟩
  | .bool value, pointer, n, d, out => by
    intro _ hout hn hd
    obtain rfl := Except.ok.inj hout
    unfold restoreJsonWithBudget
    simp only [bind_eq_ok, ensure_eq_ok, exists_const]
    exact ⟨_, enter_eq hn hd, trivial, _, leave_eq _ _, rfl⟩
  | .number value, pointer, n, d, out => by
    intro _ hout hn hd
    obtain rfl := Except.ok.inj hout
    unfold restoreJsonWithBudget
    simp only [bind_eq_ok, ensure_eq_ok, exists_const]
    exact ⟨_, enter_eq hn hd, trivial, _, leave_eq _ _, rfl⟩
  | .string value, pointer, n, d, out => by
    intro hfits hout hn hd
    unfold protectJson at hout
    obtain ⟨fragments, hprotect, hout⟩ := bind_eq_ok.mp hout
    obtain rfl := Except.ok.inj hout
    exact restore_protect_string hvalid hfits hprotect hn hd
  | .array values, pointer, n, d, out => by
    intro hfits hout hn hd
    unfold protectJson at hout
    obtain ⟨more, hmore, hout⟩ := bind_eq_ok.mp hout
    obtain rfl := Except.ok.inj hout
    unfold ValueFits at hfits
    unfold Value.restoreNodes at hn
    unfold Value.restoreDepth at hd
    have hrest := restore_protect_values hvalid values pointer 0 (n + 1) (d + 1) more hfits.2 hmore (by omega) (by omega)
    unfold restoreJsonWithBudget
    simp only [bind_eq_ok, ensure_eq_ok, exists_const]
    refine ⟨_, enter_eq (by omega) (by omega), ?_, _, hrest, _, leave_eq _ _, ?_⟩
    · rw [protectValues_length hmore]
      exact hfits.1
    · rw [Value.restoreNodes, Nat.add_assoc]
  | .object entries, pointer, n, d, out => by
    intro hfits hout hn hd
    unfold protectJson at hout
    obtain ⟨more, hmore, hout⟩ := bind_eq_ok.mp hout
    obtain rfl := Except.ok.inj hout
    unfold ValueFits at hfits
    unfold Value.restoreNodes at hn
    unfold Value.restoreDepth at hd
    have hrest := restore_protect_entries hvalid entries pointer 0 (n + 1) (d + 1) [] more hfits.2 hmore
      (fun _ h => absurd h List.not_mem_nil) (by omega) (by omega)
    unfold restoreJsonWithBudget
    simp only [bind_eq_ok, ensure_eq_ok, exists_const]
    refine ⟨_, enter_eq (by omega) (by omega), ?_, _, hrest, _, leave_eq _ _, ?_⟩
    · rw [protectEntries_length hmore]
      exact hfits.1
    · rw [Value.restoreNodes, Nat.add_assoc, List.nil_append]

theorem restore_protect_values (hvalid : p.Valid) : ∀ (values : List Value) (pointer : String) (index n d : ℕ)
    (out : List PersistedJsonValue), ValuesFit S p cursorKey scope values →
    protectValues S p cursorKey scope pointer index values = .ok out →
    n + Value.restoreNodesList values ≤ maxPersistedJsonNodes → d + Value.restoreDepthList values ≤ maxPersistedJsonDepth →
    restoreValues S p cursorKey pointer index ⟨n, d⟩ out = .ok (values, ⟨n + Value.restoreNodesList values, d⟩)
  | [], pointer, index, n, d, out => by
    intro _ hout _ _
    unfold protectValues at hout
    obtain rfl := Except.ok.inj hout
    rfl
  | value :: rest, pointer, index, n, d, out => by
    intro hfits hout hn hd
    unfold protectValues at hout
    simp only [bind_eq_ok] at hout
    obtain ⟨first, hfirst, more, hmore, hout⟩ := hout
    obtain rfl := Except.ok.inj hout
    unfold ValuesFit at hfits
    unfold Value.restoreNodesList at hn
    unfold Value.restoreDepthList at hd
    have hvalue := restore_protect hvalid value _ n d first hfits.1 hfirst (by omega) (by omega)
    have hrest := restore_protect_values hvalid rest pointer (index + 1) (n + value.restoreNodes) d more hfits.2 hmore
      (by omega) (by omega)
    unfold restoreValues
    simp only [bind_eq_ok]
    refine ⟨_, hvalue, _, hrest, ?_⟩
    rw [Value.restoreNodesList, Nat.add_assoc]

theorem restore_protect_entries (hvalid : p.Valid) : ∀ (entries : List (String × Value)) (pointer : String) (index n d : ℕ)
    (map : List (String × Value)) (out : List (PersistedJsonValue × PersistedJsonValue)),
    EntriesFit S p cursorKey scope entries → protectEntries S p cursorKey scope pointer index entries = .ok out →
    (∀ entry ∈ map, ∀ later ∈ entries, compare entry.1 later.1 = .lt) →
    n + Value.restoreNodesEntries entries ≤ maxPersistedJsonNodes →
    d + Value.restoreDepthEntries entries ≤ maxPersistedJsonDepth →
    restoreEntries S p cursorKey pointer index ⟨n, d⟩ map out =
      .ok (map ++ entries, ⟨n + Value.restoreNodesEntries entries, d⟩)
  | [], pointer, index, n, d, map, out => by
    intro _ hout _ _ _
    unfold protectEntries at hout
    obtain rfl := Except.ok.inj hout
    rw [List.append_nil]
    rfl
  | (key, value) :: rest, pointer, index, n, d, map, out => by
    intro hfits hout hsmaller hn hd
    unfold protectEntries at hout
    simp only [bind_eq_ok] at hout
    obtain ⟨fragments, hkey, first, hfirst, more, hmore, hout⟩ := hout
    obtain rfl := Except.ok.inj hout
    unfold EntriesFit at hfits
    obtain ⟨hkeyFits, hvalueFits, hless, hrestFits⟩ := hfits
    unfold Value.restoreNodesEntries at hn
    unfold Value.restoreDepthEntries at hd
    have hkeyRestored : restoreJsonWithBudget S p cursorKey (joinJsonPointer (entryPointer pointer index) "key") ⟨n, d⟩
        (.string (joinJsonPointer (entryPointer pointer index) "key") fragments) = .ok (.string key, ⟨n + 1, d⟩) :=
      restore_protect_string hvalid hkeyFits hkey (by omega) (by omega)
    have hvalue := restore_protect hvalid value _ (n + 1) d first hvalueFits hfirst (by omega) (by omega)
    have hinsert : insertEntry key value map = some (map ++ [(key, value)]) :=
      insertEntry_last fun entry hentry => hsmaller entry hentry _ List.mem_cons_self
    have hsmaller' : ∀ entry ∈ map ++ [(key, value)], ∀ later ∈ rest, compare entry.1 later.1 = .lt := by
      intro entry hentry later hlater
      rcases List.mem_append.mp hentry with hentry | hentry
      · exact hsmaller entry hentry later (List.mem_cons_of_mem _ hlater)
      · rw [List.mem_singleton.mp hentry]
        exact hless later hlater
    have hrest := restore_protect_entries hvalid rest pointer (index + 1) (n + 1 + value.restoreNodes) d
      (map ++ [(key, value)]) more hrestFits hmore hsmaller' (by omega) (by omega)
    unfold restoreEntries
    refine bind_eq_ok.mpr ⟨_, hkeyRestored, ?_⟩
    simp only [bind_eq_ok, okOr_eq_ok]
    refine ⟨key, rfl, _, hvalue, _, hinsert, ?_⟩
    rw [hrest, List.append_assoc, List.singleton_append, Value.restoreNodesEntries]
    simp only [Nat.add_assoc]

end

mutual

theorem protectJson_total (hjcs : ∀ locator, (S.jcs locator).isSome) :
    ∀ (value : Value) (pointer : String), ∃ out, protectJson S p cursorKey scope pointer value = .ok out
  | .null, pointer => ⟨_, rfl⟩
  | .bool _, pointer => ⟨_, rfl⟩
  | .number _, pointer => ⟨_, rfl⟩
  | .string value, pointer => by
    have hstring : ∃ fragments, protectString S p cursorKey scope value = .ok fragments := protectString_total hjcs value
    obtain ⟨fragments, hfragments⟩ := hstring
    unfold protectJson
    exact ⟨_, bind_eq_ok.mpr ⟨_, hfragments, rfl⟩⟩
  | .array values, pointer => by
    obtain ⟨out, hout⟩ := protectValues_total hjcs values pointer 0
    unfold protectJson
    exact ⟨_, bind_eq_ok.mpr ⟨_, hout, rfl⟩⟩
  | .object entries, pointer => by
    obtain ⟨out, hout⟩ := protectEntries_total hjcs entries pointer 0
    unfold protectJson
    exact ⟨_, bind_eq_ok.mpr ⟨_, hout, rfl⟩⟩

theorem protectValues_total (hjcs : ∀ locator, (S.jcs locator).isSome) :
    ∀ (values : List Value) (pointer : String) (index : ℕ),
      ∃ out, protectValues S p cursorKey scope pointer index values = .ok out
  | [], pointer, index => ⟨[], by unfold protectValues; rfl⟩
  | value :: rest, pointer, index => by
    obtain ⟨first, hfirst⟩ := protectJson_total hjcs value (itemPointer pointer index)
    obtain ⟨more, hmore⟩ := protectValues_total hjcs rest pointer (index + 1)
    unfold protectValues
    exact ⟨_, bind_eq_ok.mpr ⟨_, hfirst, bind_eq_ok.mpr ⟨_, hmore, rfl⟩⟩⟩

theorem protectEntries_total (hjcs : ∀ locator, (S.jcs locator).isSome) :
    ∀ (entries : List (String × Value)) (pointer : String) (index : ℕ),
      ∃ out, protectEntries S p cursorKey scope pointer index entries = .ok out
  | [], pointer, index => ⟨[], by unfold protectEntries; rfl⟩
  | (key, value) :: rest, pointer, index => by
    have hkey : ∃ fragments, protectString S p cursorKey scope key = .ok fragments := protectString_total hjcs key
    obtain ⟨fragments, hfragments⟩ := hkey
    obtain ⟨first, hfirst⟩ := protectJson_total hjcs value (joinJsonPointer (entryPointer pointer index) "value")
    obtain ⟨more, hmore⟩ := protectEntries_total hjcs rest pointer (index + 1)
    unfold protectEntries
    exact ⟨_, bind_eq_ok.mpr ⟨_, hfragments, bind_eq_ok.mpr ⟨_, hfirst, bind_eq_ok.mpr ⟨_, hmore, rfl⟩⟩⟩⟩

end

end

/-- **Secrets stay out of the snapshot, and payloads come back**, for every accepted inventory, scope and cursor key.  The
canonical JSON of a locator always exists: it is a string and two numbers. -/
theorem payload_protected (S : Seal) (hjcs : ∀ locator, (S.jcs locator).isSome) (sealKey cursorKey : List UInt8)
    (inventories : List PersistenceCapabilitySecretInventory) (p : PersistenceProtection)
    (hp : PersistenceProtection.new sealKey inventories = .ok p) (scope : Option (String × ℕ)) :
    (∀ (value : Value) (pointer : String), ValueFits S p cursorKey scope value →
      value.restoreNodes ≤ maxPersistedJsonNodes → value.restoreDepth ≤ maxPersistedJsonDepth →
      ∃ out, protectJson S p cursorKey scope pointer value = .ok out ∧
        restoreJson S p cursorKey pointer out = .ok value) ∧
    ∀ value : String, ∃ fragments, protectString S p cursorKey scope value = .ok fragments ∧
      (∀ literal, .literal literal ∈ fragments → ∀ candidate ∈ p.candidates scope,
        ¬candidate.2.value.toList <:+: literal.toList) ∧
      Apart fragments ∧ revealAll p fragments = value := by
  constructor
  · intro value pointer hfits hnodes hdepth
    have htotal : ∃ out, protectJson S p cursorKey scope pointer value = .ok out := protectJson_total hjcs value pointer
    obtain ⟨out, hout⟩ := htotal
    have hrestore := restore_protect (PersistenceProtection.new_valid hp) value pointer 0 0 out hfits hout
      (by rwa [Nat.zero_add]) (by rwa [Nat.zero_add])
    refine ⟨out, hout, ?_⟩
    unfold restoreJson
    rw [hrestore]
    rfl
  · intro value
    have htotal : ∃ fragments, protectString S p cursorKey scope value = .ok fragments := protectString_total hjcs value
    obtain ⟨fragments, hfragments⟩ := htotal
    have hredaction := protectString_redaction hfragments
    exact ⟨fragments, hfragments, hredaction.written.clean, hredaction.written.apart,
      String.toList_inj.mp hredaction.written.text.symm⟩

namespace Sample

def plainSeal : Seal := ⟨fun _ message => Vector.ofFn fun i => message.getD i 0, fun l => some (asBytes l.capabilityId)⟩

/-- Secrets that overlap, and one that begins another. -/
def overlappingSecrets : List PersistenceSecretMaterial :=
  [⟨"abc", by decide, by decide⟩, ⟨"bcd", by decide, by decide⟩, ⟨"ab", by decide, by decide⟩]

def secretInventories : List PersistenceCapabilitySecretInventory := [⟨"mail", 1, "digest", .retry, overlappingSecrets⟩]

def protection : PersistenceProtection :=
  (PersistenceProtection.new [1] secretInventories).toOption.getD ⟨[], ∅, ∅⟩

theorem protection_new : PersistenceProtection.new [1] secretInventories = .ok protection := by
  have hok : (PersistenceProtection.new [1] secretInventories).isOk = true := by decide +kernel
  unfold protection
  rcases hnew : PersistenceProtection.new [1] secretInventories with e | p
  · rw [hnew] at hok
    cases hok
  · rfl

theorem string_fits {value : String} (hsize : value.utf8ByteSize ≤ maxCapabilityArgumentBytes)
    (hrun : (protectString plainSeal protection [] none value).toOption.all
      (fun fragments => decide (fragments.length ≤ maxPersistedStringFragments)) = true) :
    StringFits plainSeal protection [] none value := by
  refine ⟨hsize, fun fragments hfragments => ?_⟩
  rw [hfragments] at hrun
  exact of_decide_eq_true hrun

def payload : Value := .object [("abx", .string "xabcdab"), ("k", .array [.null, .bool true, .string ""])]

theorem payload_read_back : ∃ out, protectJson plainSeal protection [] none "/initial_input" payload = .ok out ∧
    restoreJson plainSeal protection [] "/initial_input" out = .ok payload := by
  refine (payload_protected plainSeal (fun _ => rfl) [1] [] secretInventories protection protection_new none).1 payload
    "/initial_input" ?_ (by decide) (by decide)
  have hempty : StringFits plainSeal protection [] none "" := string_fits (by decide) (by decide +kernel)
  have hfirst : StringFits plainSeal protection [] none "abx" := string_fits (by decide) (by decide +kernel)
  have hsecond : StringFits plainSeal protection [] none "k" := string_fits (by decide) (by decide +kernel)
  have hvalue : StringFits plainSeal protection [] none "xabcdab" := string_fits (by decide) (by decide +kernel)
  exact ⟨by decide, hfirst, hvalue, by decide, hsecond, ⟨by decide, trivial, trivial, hempty, trivial⟩, by decide, trivial⟩

end Sample

end AnimaCore
