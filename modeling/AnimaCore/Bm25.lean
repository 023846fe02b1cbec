import AnimaCore.Base
import AnimaCore.Lib.Tally

/-!
# AnimaCore.Bm25 — the lexical index of the memories

`bm25.rs`: an index keeps, for each document, the counts of its terms and, for each term, in how many documents it occurs.
Both are changed when a document is added or removed; neither is ever computed afresh.

* `Exact ix`: the counts of every document are those of its terms, and those of the terms are those of the documents.

The average length of the documents is read by the scores only and is left out; what `tokenize` returns is an argument.
-/

namespace AnimaCore

open Lib

structure DocEntry where
  id : String
  terms : List String
  termFreqs : Tally String

structure Bm25 where
  docs : Table String DocEntry
  docFreq : Tally String

namespace Bm25

def empty : Bm25 := ⟨∅, ∅⟩

def removeDocument (ix : Bm25) (id : String) : Bm25 :=
  match ix.docs[id]? with
  | none => ix
  | some doc => { docs := ix.docs.erase id, docFreq := doc.termFreqs.keys.foldl Tally.lower ix.docFreq }

def termFreqs (terms : List String) : Tally String := terms.foldl Tally.bump ∅

/-- `add_document`, of the terms of the text. -/
def addDocument (ix : Bm25) (id : String) (terms : List String) : Bm25 :=
  let ix := if id ∈ ix.docs then ix.removeDocument id else ix
  { docs := ix.docs.insert id { id, terms, termFreqs := termFreqs terms },
    docFreq := (termFreqs terms).keys.foldl Tally.bump ix.docFreq }

def documentsWith (docs : Table String DocEntry) (term : String) : ℕ :=
  docs.toList.countP fun entry => decide (term ∈ entry.2.termFreqs)

structure Exact (ix : Bm25) : Prop where
  named : ∀ (id : String) doc, ix.docs[id]? = some doc → doc.id = id
  terms : ∀ (id : String) doc, ix.docs[id]? = some doc → doc.termFreqs.Counts fun term => doc.terms.count term
  docFreq : ix.docFreq.Counts (documentsWith ix.docs)

theorem termFreqs_counts (terms : List String) : (termFreqs terms).Counts fun term => terms.count term :=
  (Tally.counts_empty.foldl_bump terms).congr fun _ => Nat.zero_add _

theorem exact_empty : Exact empty where
  named id doc h := absurd h (by simp [empty])
  terms id doc h := absurd h (by simp [empty])
  docFreq := Tally.counts_empty.congr fun _ => rfl

theorem count_keys (freqs : Tally String) (term : String) : freqs.keys.count term = if term ∈ freqs then 1 else 0 := by
  rw [List.Nodup.count Std.ExtTreeMap.nodup_keys]
  simp only [Std.ExtTreeMap.mem_keys]

theorem documentsWith_insert {docs : Table String DocEntry} {id : String} (hid : id ∉ docs) (doc : DocEntry) (term : String) :
    documentsWith (docs.insert id doc) term = documentsWith docs term + if term ∈ doc.termFreqs then 1 else 0 := by
  unfold documentsWith
  rw [(Table.toList_insert_perm hid).countP_eq, List.countP_cons]
  simp

theorem documentsWith_erase {docs : Table String DocEntry} {id : String} {doc : DocEntry} (hdoc : docs[id]? = some doc)
    (term : String) :
    documentsWith docs term = documentsWith (docs.erase id) term + if term ∈ doc.termFreqs then 1 else 0 := by
  unfold documentsWith
  rw [(Table.toList_perm_erase hdoc).countP_eq, List.countP_cons]
  simp

theorem removeDocument_docs (ix : Bm25) (id : String) : (ix.removeDocument id).docs = ix.docs.erase id := by
  unfold removeDocument
  rcases hdoc : ix.docs[id]? with _ | doc
  · refine Table.ext_getElem? fun a => ?_
    rw [Table.getElem?_erase_eq]
    split_ifs with ha
    · rw [← ha, hdoc]
    · rfl
  · rfl

theorem Exact.removeDocument {ix : Bm25} (h : ix.Exact) (id : String) : (ix.removeDocument id).Exact := by
  have hdocs : ∀ (a : String) doc, (ix.removeDocument id).docs[a]? = some doc → ix.docs[a]? = some doc := by
    intro a doc ha
    rw [removeDocument_docs, Table.getElem?_erase_eq] at ha
    split_ifs at ha
    exact ha
  refine ⟨fun a doc ha => h.named a doc (hdocs a doc ha), fun a doc ha => h.terms a doc (hdocs a doc ha), ?_⟩
  rw [removeDocument_docs]
  unfold Bm25.removeDocument
  rcases hdoc : ix.docs[id]? with _ | doc
  · have hsame : ix.docs.erase id = ix.docs := by
      rw [← removeDocument_docs, Bm25.removeDocument, hdoc]
    rw [hsame]
    exact h.docFreq
  · refine (h.docFreq.foldl_lower doc.termFreqs.keys).congr fun term => ?_
    rw [documentsWith_erase hdoc, count_keys]
    omega

theorem addDocument_docs (ix : Bm25) (id : String) (terms : List String) : (ix.addDocument id terms).docs =
    ix.docs.insert id { id, terms, termFreqs := termFreqs terms } := by
  refine Table.ext_getElem? fun a => ?_
  unfold addDocument
  by_cases hid : id ∈ ix.docs
  · simp only [hid, if_true, removeDocument_docs, Table.getElem?_insert_eq, Table.getElem?_erase_eq]
    split_ifs
    · rfl
    · rfl
  · simp only [hid, if_false]

theorem Exact.addDocument {ix : Bm25} (h : ix.Exact) (id : String) (terms : List String) : (ix.addDocument id terms).Exact := by
  refine ⟨fun a doc ha => ?_, fun a doc ha => ?_, ?_⟩
  · rw [addDocument_docs, Table.getElem?_insert_eq] at ha
    split_ifs at ha with hid
    · obtain rfl := Option.some.inj ha
      exact hid
    · exact h.named a doc ha
  · rw [addDocument_docs, Table.getElem?_insert_eq] at ha
    split_ifs at ha with hid
    · obtain rfl := Option.some.inj ha
      exact termFreqs_counts terms
    · exact h.terms a doc ha
  · -- The document that is replaced has been counted out before the new one is counted in.
    have hcount : ∀ ix : Bm25, ix.Exact → id ∉ ix.docs →
        Tally.Counts ((termFreqs terms).keys.foldl Tally.bump ix.docFreq)
          (documentsWith (ix.docs.insert id { id, terms, termFreqs := termFreqs terms })) := by
      intro ix h hid
      refine (h.docFreq.foldl_bump (termFreqs terms).keys).congr fun term => ?_
      rw [documentsWith_insert hid, count_keys]
    unfold Bm25.addDocument
    by_cases hid : id ∈ ix.docs
    · simp only [hid, if_true]
      refine hcount _ (h.removeDocument id) ?_
      rw [removeDocument_docs]
      exact Table.not_mem_erase_self
    · simp only [hid, if_false]
      exact hcount ix h hid

end Bm25

end AnimaCore
