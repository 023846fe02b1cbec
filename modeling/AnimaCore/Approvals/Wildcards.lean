import AnimaCore.Approvals.Matchers

/-!
# AnimaCore.Approvals.Wildcards — what the wildcards mean and what the loops make of them

The reference: a star stands for any run of characters, `?` for exactly one, `**` for any number of components, and
anything else for itself.  The loops compare letters first, so a star that stands right before a `*` of the text takes
that character and nothing else, and is not tried again.
-/

namespace AnimaCore.Approvals

open Lib ShellLex

/-! ## The reference -/

def Wildcard (pattern text : Text) : Prop :=
  Glob.Reads isStar (fun x c => fitsLetter x c = true) Glob.AnyRun pattern text

/-- The pattern matches the whole text, and each of its stars that stands right before a `*` takes just that. -/
def LiteralStars (pattern text : Text) : Prop :=
  Glob.Reads isStar (fun x c => fitsLetter x c = true) (Glob.LiteralFirst fitsLetter) pattern text

/-- The pattern matches all components of the path. -/
def PathWildcard (component : Text → Text → Prop) (pattern path : List String) : Prop :=
  Glob.Reads isGlobstar (fun segment name => component segment.toList name.toList) Glob.AnyRun pattern path

/-- Both are relative paths, and the one matches the other. -/
def PathCovers (component : Text → Text → Prop) (glob path : String) : Prop :=
  ∃ pattern names, relativeComponents glob = some pattern ∧ relativeComponents path = some names ∧
    PathWildcard component pattern names

/-- The reference is decided by the table. -/
instance (pattern text : Text) : Decidable (Wildcard pattern text) :=
  decidable_of_iff ((Glob.rows isStar fitsLetter pattern text).headD false = true) (Glob.headD_rows_iff pattern text)

/-! ## The two readings -/

variable {pattern text : Text}

theorem LiteralStars.wildcard (h : LiteralStars pattern text) : Wildcard pattern text :=
  Glob.Reads.mono (fun _ _ hfits => hfits) (fun _ _ _ _ hleaves => hleaves.suffix) h

/-! ## What the code decides -/

theorem componentMatches_iff {pattern text : String} :
    componentMatches pattern text = true ↔ LiteralStars pattern.toList text.toList := Glob.scan_iff _ _ _ _

theorem globMatches_iff {pattern text : String} :
    globMatches pattern text = true ↔ LiteralStars (collapseWhitespace pattern.toList) text.toList :=
  Glob.scan_iff _ _ _ _

theorem reads_dedupGlobstars {fits : String → String → Prop} {pattern names : List String} :
    Glob.Reads isGlobstar fits Glob.AnyRun (dedupGlobstars pattern) names ↔
      Glob.Reads isGlobstar fits Glob.AnyRun pattern names := by
  induction pattern using dedupGlobstars.induct generalizing names with
  | case1 => rfl
  | case2 segment => rfl
  | case3 segment next rest hboth ih =>
    rw [dedupGlobstars, if_pos hboth, ih]
    rw [Bool.and_eq_true] at hboth
    exact (Glob.reads_star_star hboth.1 hboth.2).symm
  | case4 segment next rest hboth ih =>
    rw [dedupGlobstars, if_neg hboth]
    by_cases hsegment : isGlobstar segment = true
    · rw [Glob.reads_star hsegment, Glob.reads_star hsegment]
      simp only [ih]
    · have hone : isGlobstar segment = false := by simpa using hsegment
      rw [Glob.reads_one hone, Glob.reads_one hone]
      simp only [ih]

theorem segmentsMatch_iff {pattern names : List String} :
    segmentsMatch pattern names = true ↔ PathWildcard LiteralStars pattern names := by
  unfold segmentsMatch PathWildcard
  rw [Glob.headD_rows_iff]
  simp only [componentMatches_iff]

theorem pathMatches_iff {glob path : String} : pathMatches glob path = true ↔ PathCovers LiteralStars glob path := by
  unfold pathMatches PathCovers
  rcases relativeComponents glob with _ | pattern
  · simp
  rcases relativeComponents path with _ | names
  · simp
  show segmentsMatch (dedupGlobstars pattern) names = true ↔ _
  rw [segmentsMatch_iff]
  unfold PathWildcard
  rw [reads_dedupGlobstars]
  simp

theorem PathCovers.mono {component component' : Text → Text → Prop} {glob path : String}
    (hcomponent : ∀ x c, component x c → component' x c) (h : PathCovers component glob path) :
    PathCovers component' glob path := by
  obtain ⟨pattern, names, hglob, hpath, h⟩ := h
  exact ⟨pattern, names, hglob, hpath,
    Glob.Reads.mono (fun _ _ hfits => hcomponent _ _ hfits) (fun _ _ _ _ hleaves => hleaves) h⟩

/-! ## When the code is right -/

theorem iff_iff_of_imp {code literal reference : Prop} (hcode : code ↔ literal) (himp : literal → reference) :
    ((code ↔ reference) ↔ (reference → literal)) := by
  rw [hcode]
  exact ⟨fun h => h.mpr, fun h => ⟨himp, h⟩⟩

end AnimaCore.Approvals
