import EventSourcing.Concurrency.Ledger
import EventSourcing.Concurrency.System
import EventSourcing.MongoClient.Database

/-!
# Concurrent calls of `append_batch_versioned` on MongoDB

A call draws its versions from the counter of the collection and its positions from the global
counter, each in one atomic operation, and other calls run in between. Either counter gives out
consecutive numbers, so versions have no gap and nothing is given out twice. The two orders
agree in runs where the calls on a collection reach the global counter in the order of their
versions (`versions_and_positions`), and only there: a call that is overtaken between its two
draws stores lower versions at higher positions (`versions_and_positions_fails`).
-/

namespace EventSourcing.MongoClient.Appends

open Concurrency
open scoped List

variable {P : Type}

/-- How far a call of `append_batch_versioned` has come. -/
inductive Call (P : Type) where
  | invoked (batch : Batch P)
  | versioned (batch : Batch P) (startVersion : Int)
  | positioned (batch : Batch P) (startVersion globalStart : Int)
  | returned

namespace Call

/-- The versions of collection `name` that the call has drawn and not stored. -/
def versions (name : String) : Call P → List Int
  | versioned batch startVersion =>
    if batch.collectionName = name then numbers startVersion batch.payloads.length else []
  | positioned batch startVersion _ =>
    if batch.collectionName = name then numbers startVersion batch.payloads.length else []
  | _ => []

/-- The positions of documents of collection `name` that the call has drawn and not stored. -/
def positions (name : String) : Call P → List Int
  | positioned batch _ globalStart =>
    if batch.collectionName = name then numbers globalStart batch.payloads.length else []
  | _ => []

/-- The first version of a call with events for collection `name` whose positions are still to
draw. -/
def pending? (name : String) : Call P → Option Int
  | versioned batch startVersion =>
    if batch.collectionName = name ∧ batch.payloads.isEmpty = false then some startVersion
    else none
  | _ => none

/-- The versions and positions that the call will store in collection `name`. -/
def numbered (name : String) : Call P → List (Int × Int)
  | positioned batch startVersion globalStart =>
    if batch.collectionName = name then
      (List.range batch.payloads.length).map fun i : ℕ => (startVersion + i, globalStart + i)
    else []
  | _ => []

end Call

structure State (P : Type) where
  db : Database P
  calls : List (Call P)

inductive Action (P : Type) where
  | invoke (batch : Batch P)
  | incVersion (k : ℕ)
  | incGlobalSeq (k : ℕ)
  | insert (k : ℕ) (ids : ℕ → String)

namespace State

variable (σ : State P)

/-- A step that succeeds. -/
def next : Action P → Option (State P)
  | .invoke batch => some { σ with calls := σ.calls ++ [.invoked batch] }
  | .incVersion k =>
    match σ.calls[k]? with
    | some (.invoked batch) =>
      some {
        db := σ.db.incVersion batch.collectionName batch.payloads.length
        calls := σ.calls.set k (.versioned batch (σ.db.version batch.collectionName)) }
    | _ => none
  | .incGlobalSeq k =>
    match σ.calls[k]? with
    | some (.versioned batch startVersion) =>
      some {
        db := σ.db.incGlobalSeq batch.payloads.length
        calls := σ.calls.set k (.positioned batch startVersion σ.db.sequence) }
    | _ => none
  | .insert k ids =>
    match σ.calls[k]? with
    | some (.positioned batch startVersion globalStart) =>
      match batch.documents startVersion globalStart ids with
      | none => none
      | some docs =>
        match σ.db.insertMany batch.collectionName docs .done with
        | (true, db) => some { db := db, calls := σ.calls.set k .returned }
        | (false, _) => none
    | _ => none

/-- The versions and positions of the documents of a collection. -/
def stored (name : String) : List (Int × Int) :=
  (σ.db.docs name).map fun d => (d.streamVersion, d.globalPosition)

end State

variable (P) in
/-- Any number of calls on any collections, none of which fails; the counter of `name` is
fresh. -/
def system (name : String) : System (State P) (Action P) where
  init σ := σ.db.docs name = [] ∧ σ.db.version name = 0 ∧ 0 ≤ σ.db.sequence ∧ σ.calls = []
  next := State.next

/-- No other call that has drawn lower versions has its positions still to draw. -/
def InOrder (name : String) (σ : State P) : Action P → Prop
  | .incGlobalSeq k => ∀ call ∈ σ.calls[k]?, ∀ v ∈ call.pending? name,
      ∀ call' ∈ σ.calls, ∀ v' ∈ call'.pending? name, v ≤ v'
  | _ => True

instance (name : String) (σ : State P) : (a : Action P) → Decidable (InOrder name σ a)
  | .incGlobalSeq _ =>
    inferInstanceAs (Decidable (∀ call ∈ _, ∀ v ∈ _, ∀ call' ∈ σ.calls, ∀ v' ∈ _, v ≤ v'))
  | .invoke _ => isTrue trivial
  | .incVersion _ => isTrue trivial
  | .insert _ _ => isTrue trivial

/-! ### What a step does -/

variable {σ σ' : State P} {name : String} {k : ℕ} {batch : Batch P}

lemma documents_numbered {startVersion globalStart : Int} {ids : ℕ → String}
    {docs : List (BenchDocument P)}
    (h : batch.documents startVersion globalStart ids = some docs) :
    docs.map (fun d => (d.streamVersion, d.globalPosition))
      = (List.range batch.payloads.length).map
          fun i : ℕ => (startVersion + i, globalStart + i) := by
  obtain ⟨payloads, hpayloads, rfl⟩ := Option.map_eq_some_iff.mp h
  rw [Bench.collect_eq_some.mp hpayloads, List.length_map]
  apply List.ext_getElem <;> simp

lemma accepted_documents {db : Database P} (docs stored : List (BenchDocument P)) :
    db.accepted name stored docs <+: docs := by
  induction docs generalizing stored with
  | nil => exact List.prefix_rfl
  | cons d docs ih =>
    rw [Database.accepted]
    split_ifs
    · exact List.nil_prefix
    · exact List.prefix_cons_inj d |>.mpr (ih _)

/-- An `insert_many` that succeeds has stored every document. -/
lemma insertMany_ok {db db' : Database P} {docs : List (BenchDocument P)}
    (h : db.insertMany name docs .done = (true, db')) :
    db' = { db with docs := Function.update db.docs name (db.docs name ++ docs) } := by
  obtain ⟨hall, rfl⟩ := Prod.mk.inj h
  have hlength := (of_decide_eq_true hall).2.2
  rw [(accepted_documents docs (db.docs name)).eq_of_length hlength]

/-- What each action does. -/
inductive Step (σ : State P) : Action P → State P → Prop where
  | invoke (batch : Batch P) :
      Step σ (.invoke batch) { σ with calls := σ.calls ++ [.invoked batch] }
  | incVersion {k : ℕ} {batch : Batch P} (hk : σ.calls[k]? = some (.invoked batch)) :
      Step σ (.incVersion k)
        { db := σ.db.incVersion batch.collectionName batch.payloads.length
          calls := σ.calls.set k (.versioned batch (σ.db.version batch.collectionName)) }
  | incGlobalSeq {k : ℕ} {batch : Batch P} {startVersion : Int}
      (hk : σ.calls[k]? = some (.versioned batch startVersion)) :
      Step σ (.incGlobalSeq k)
        { db := σ.db.incGlobalSeq batch.payloads.length
          calls := σ.calls.set k (.positioned batch startVersion σ.db.sequence) }
  | insert {k : ℕ} {ids : ℕ → String} {batch : Batch P} {startVersion globalStart : Int}
      {docs : List (BenchDocument P)}
      (hk : σ.calls[k]? = some (.positioned batch startVersion globalStart))
      (hdocs : docs.map (fun d => (d.streamVersion, d.globalPosition))
        = (List.range batch.payloads.length).map
            fun i : ℕ => (startVersion + i, globalStart + i)) :
      Step σ (.insert k ids)
        { db :=
            { σ.db with
              docs := Function.update σ.db.docs batch.collectionName
                (σ.db.docs batch.collectionName ++ docs) }
          calls := σ.calls.set k .returned }

lemma step_of_next {a : Action P} (hs : σ.next a = some σ') : Step σ a σ' := by
  cases a with
  | invoke batch =>
    obtain rfl := Option.some.inj hs
    exact .invoke batch
  | incVersion k =>
    simp only [State.next] at hs
    split at hs
    · rename_i batch hk
      obtain rfl := Option.some.inj hs
      exact .incVersion hk
    · cases hs
  | incGlobalSeq k =>
    simp only [State.next] at hs
    split at hs
    · rename_i batch startVersion hk
      obtain rfl := Option.some.inj hs
      exact .incGlobalSeq hk
    · cases hs
  | insert k ids =>
    simp only [State.next] at hs
    split at hs
    · rename_i batch startVersion globalStart hk
      split at hs
      · cases hs
      · rename_i docs hdocs
        split at hs
        · rename_i db hinsert
          obtain rfl := Option.some.inj hs
          rw [insertMany_ok hinsert]
          exact .insert hk (documents_numbered hdocs)
        · cases hs
    · cases hs

/-! ### What every run keeps -/

/-- The versions of `name` run on from `0`; no two documents, stored or still to be stored,
share a position. -/
structure Inv (name : String) (σ : State P) : Prop where
  nonneg : 0 ≤ σ.db.version name
  versions : ledger (Call.versions name) ((σ.stored name).map Prod.fst) σ.calls
    ~ numbers 0 (σ.db.version name).toNat
  positions : Drawn (Call.positions name) (-1) (σ.db.sequence - 1) ((σ.stored name).map Prod.snd)
    σ.calls

@[simp] lemma version_incVersion (db : Database P) (name' : String) (n : Int) :
    (db.incVersion name' n).version name
      = db.version name + if name' = name then n else 0 := by
  by_cases h : name' = name
  · subst h
    simp [Database.version, Database.incVersion, increment]
  · simp [Database.version, Database.incVersion, h, Function.update_of_ne (Ne.symm h)]

@[simp] lemma sequence_incGlobalSeq (db : Database P) (n : Int) :
    (db.incGlobalSeq n).sequence = db.sequence + n := by
  simp [Database.sequence, Database.incGlobalSeq, increment]

/-- The pairs that a call stores are those that it has drawn. -/
lemma stored_insert {docs : List (BenchDocument P)} {startVersion globalStart : Int}
    {calls : List (Call P)} {db : Database P}
    (hdb : db.docs = Function.update σ.db.docs batch.collectionName
      (σ.db.docs batch.collectionName ++ docs))
    (hdocs : docs.map (fun d => (d.streamVersion, d.globalPosition))
      = (List.range batch.payloads.length).map
          fun i : ℕ => (startVersion + i, globalStart + i)) :
    State.stored ⟨db, calls⟩ name
      = σ.stored name ++ Call.numbered name (.positioned batch startVersion globalStart) := by
  simp only [State.stored, Call.numbered, hdb]
  split_ifs with hname
  · subst hname
    rw [Function.update_self, List.map_append, hdocs]
  · rw [Function.update_of_ne (Ne.symm hname), List.append_nil]

lemma numbered_fst {startVersion globalStart : Int} :
    (Call.numbered name (.positioned batch startVersion globalStart)).map Prod.fst
      = Call.versions name (.positioned batch startVersion globalStart) := by
  simp only [Call.numbered, Call.versions]
  split_ifs
  · simp [numbers, Function.comp_def]
  · rfl

lemma numbered_snd {startVersion globalStart : Int} :
    (Call.numbered name (.positioned batch startVersion globalStart)).map Prod.snd
      = Call.positions name (.positioned batch startVersion globalStart) := by
  simp only [Call.numbered, Call.positions]
  split_ifs
  · simp [numbers, Function.comp_def]
  · rfl

lemma inv_next {a : Action P} (h : Inv name σ) (hs : σ.next a = some σ') : Inv name σ' := by
  cases step_of_next hs with
  | invoke batch =>
    refine ⟨h.nonneg, ?_, h.positions.start rfl⟩
    rw [ledger_start rfl]
    exact h.versions
  | @incVersion k batch hk =>
    refine ⟨?_, ?_, h.positions.keep hk rfl⟩
    · rw [version_incVersion]
      have := h.nonneg
      split_ifs <;> omega
    · rw [version_incVersion]
      split_ifs with hname
      · subst hname
        have hcounter : 0 + ((σ.db.version batch.collectionName).toNat : Int)
            = σ.db.version batch.collectionName := by
          have := h.nonneg
          omega
        have hnext := numbers_append 0 (σ.db.version batch.collectionName).toNat
          batch.payloads.length
        rw [hcounter] at hnext
        rw [Int.toNat_add h.nonneg (by omega), Int.toNat_natCast, ← hnext]
        exact (ledger_draw hk (by simp [Call.versions])).trans (h.versions.append_right _)
      · rw [Int.add_zero]
        exact (ledger_keep hk (by simp [Call.versions, hname])).trans h.versions
  | @incGlobalSeq k batch startVersion hk =>
    refine ⟨h.nonneg, ?_, ?_⟩
    · refine List.Perm.trans (ledger_keep hk ?_) h.versions
      rfl
    · rw [sequence_incGlobalSeq]
      have hheld : Call.positions name (.positioned batch startVersion σ.db.sequence)
          ~ Call.positions name (.versioned batch startVersion)
            ++ Call.positions name (.positioned batch startVersion σ.db.sequence) := .refl _
      refine h.positions.draw hk hheld ?_ (by omega) fun g hg => ?_
      · simp only [Call.positions]
        split_ifs
        · exact nodup_numbers ..
        · exact List.nodup_nil
      · simp only [Call.positions] at hg
        split_ifs at hg
        · have := mem_numbers.mp hg
          omega
        · cases hg
  | @insert k ids batch startVersion globalStart docs hk hdocs =>
    refine ⟨h.nonneg, ?_, ?_⟩
    · rw [stored_insert rfl hdocs, List.map_append, numbered_fst]
      exact (ledger_store hk rfl).trans h.versions
    · rw [stored_insert rfl hdocs, List.map_append, numbered_snd]
      exact h.positions.store hk rfl

lemma inv_of_reachable (h : (system P name).Reachable σ) : Inv name σ := by
  refine System.ReachBy.invariant (P := Inv name) ?_ (fun _ _ _ _ hinv _ hs => inv_next hinv hs) h
  rintro σ ⟨hdocs, hversion, hsequence, hcalls⟩
  have hstored : σ.stored name = [] := by simp [State.stored, hdocs]
  refine ⟨hversion.ge, ?_, ?_, ?_, ?_⟩
  · simp [ledger, hstored, hcalls, hversion, numbers]
  · omega
  · simp [ledger, hstored, hcalls]
  · simp [ledger, hstored, hcalls]

/-! ### The two orders -/

/-- Versions and positions ascend together, and a call whose positions are still to draw has
higher versions than all that are numbered. -/
structure Agree (name : String) (σ : State P) : Prop where
  numbered : ∀ x ∈ ledger (Call.numbered name) (σ.stored name) σ.calls,
    ∀ y ∈ ledger (Call.numbered name) (σ.stored name) σ.calls, x.1 < y.1 → x.2 < y.2
  pending : ∀ (k : ℕ) call, σ.calls[k]? = some call → ∀ v ∈ call.pending? name,
    ∀ x ∈ ledger (Call.numbered name) (σ.stored name) σ.calls, x.1 < v

lemma mem_numbered {x : Int × Int} {startVersion globalStart : Int} :
    x ∈ Call.numbered name (.positioned batch startVersion globalStart) ↔
      batch.collectionName = name ∧
        ∃ i < batch.payloads.length, x = (startVersion + i, globalStart + i) := by
  simp only [Call.numbered]
  split_ifs with hname
  · simp [hname, eq_comm]
  · simp [hname]

lemma mem_pending {startVersion v : Int} :
    v ∈ Call.pending? name (.versioned batch startVersion) ↔
      (batch.collectionName = name ∧ 0 < batch.payloads.length) ∧ startVersion = v := by
  simp [Call.pending?, List.length_pos_iff]

lemma mem_versions_of_pending {call : Call P} {v : Int} (hv : v ∈ call.pending? name) :
    v ∈ call.versions name := by
  cases call with
  | versioned batch startVersion =>
    obtain ⟨⟨hname, hpos⟩, rfl⟩ := mem_pending.mp hv
    simp only [Call.versions, if_pos hname]
    exact mem_numbers.mpr ⟨le_refl _, by omega⟩
  | _ => cases hv

/-- A numbered pair consists of a version and a position that have been drawn. -/
lemma mem_of_numbered {x : Int × Int}
    (hx : x ∈ ledger (Call.numbered name) (σ.stored name) σ.calls) :
    x.1 ∈ ledger (Call.versions name) ((σ.stored name).map Prod.fst) σ.calls ∧
      x.2 ∈ ledger (Call.positions name) ((σ.stored name).map Prod.snd) σ.calls := by
  rcases mem_ledger.mp hx with hx | ⟨k, call, hk, hx⟩
  · exact ⟨mem_ledger.mpr (.inl (List.mem_map_of_mem hx)),
      mem_ledger.mpr (.inl (List.mem_map_of_mem hx))⟩
  · cases call with
    | positioned batch startVersion globalStart =>
      refine ⟨mem_ledger.mpr (.inr ⟨k, _, hk, ?_⟩), mem_ledger.mpr (.inr ⟨k, _, hk, ?_⟩)⟩
      · rw [← numbered_fst]
        exact List.mem_map_of_mem hx
      · rw [← numbered_snd]
        exact List.mem_map_of_mem hx
    | _ => cases hx

/-- A call that draws its positions after every call with lower versions keeps the orders in
agreement. -/
lemma Agree.incGlobalSeq {startVersion : Int} (h : Agree name σ) (hinv : Inv name σ)
    (horder : InOrder name σ (.incGlobalSeq k))
    (hk : σ.calls[k]? = some (.versioned batch startVersion)) :
    Agree name
      { db := σ.db.incGlobalSeq batch.payloads.length
        calls := σ.calls.set k (.positioned batch startVersion σ.db.sequence) } := by
  have hledger : ledger (Call.numbered name) (σ.stored name)
      (σ.calls.set k (.positioned batch startVersion σ.db.sequence))
      ~ ledger (Call.numbered name) (σ.stored name) σ.calls
        ++ Call.numbered name (.positioned batch startVersion σ.db.sequence) :=
    ledger_draw hk (.refl _)
  have hmem : ∀ x, x ∈ ledger (Call.numbered name) (σ.stored name)
      (σ.calls.set k (.positioned batch startVersion σ.db.sequence)) →
      x ∈ ledger (Call.numbered name) (σ.stored name) σ.calls ∨
        x ∈ Call.numbered name (.positioned batch startVersion σ.db.sequence) :=
    fun x hx => List.mem_append.mp (hledger.subset hx)
  constructor
  · intro x hx y hy hlt
    rcases hmem x hx with hx | hx <;> rcases hmem y hy with hy | hy
    · exact h.numbered x hx y hy hlt
    · obtain ⟨-, j, -, rfl⟩ := mem_numbered.mp hy
      have := (hinv.positions.mem _ (mem_of_numbered hx).2).2
      simp only
      omega
    · -- what is numbered already has lower versions
      obtain ⟨hname, i, hi, rfl⟩ := mem_numbered.mp hx
      have := h.pending k _ hk startVersion (mem_pending.mpr ⟨⟨hname, by omega⟩, rfl⟩) y hy
      simp only at hlt
      omega
    · obtain ⟨-, i, -, rfl⟩ := mem_numbered.mp hx
      obtain ⟨-, j, -, rfl⟩ := mem_numbered.mp hy
      simp only at hlt ⊢
      omega
  · intro j call hj v hv x hx
    rcases getElem?_set_cases hj with ⟨-, rfl⟩ | ⟨hjk, hj⟩
    · cases hv
    rcases hmem x hx with hx | hx
    · exact h.pending j call hj v hv x hx
    · obtain ⟨hname, i, hi, rfl⟩ := mem_numbered.mp hx
      have hle := horder _ hk startVersion (mem_pending.mpr ⟨⟨hname, by omega⟩, rfl⟩) call
        (List.mem_of_getElem? hj) v hv
      -- the ranges of two calls do not overlap
      have hapart : v ∉ numbers startVersion batch.payloads.length := by
        have hnodup := hinv.versions.nodup_iff.mpr (nodup_numbers ..)
        have := ledger_apart hnodup hj hk (Ne.symm hjk) (mem_versions_of_pending hv)
        simpa only [Call.versions, if_pos hname] using this
      rw [mem_numbers] at hapart
      simp only
      omega

lemma Agree.of_subset (h : Agree name σ)
    (hledger : ledger (Call.numbered name) (σ'.stored name) σ'.calls
      ⊆ ledger (Call.numbered name) (σ.stored name) σ.calls)
    (hcalls : ∀ (k : ℕ) call, σ'.calls[k]? = some call → ∀ v ∈ call.pending? name,
      σ.calls[k]? = some call) : Agree name σ' where
  numbered x hx y hy := h.numbered x (hledger hx) y (hledger hy)
  pending k call hk v hv x hx := h.pending k call (hcalls k call hk v hv) v hv x (hledger hx)

lemma Agree.next {a : Action P} (h : Agree name σ) (hinv : Inv name σ)
    (horder : InOrder name σ a) (hs : σ.next a = some σ') : Agree name σ' := by
  cases step_of_next hs with
  | invoke batch =>
    refine h.of_subset ?_ fun k call hk v hv => ?_
    · rw [ledger_start rfl]
      exact List.Subset.refl _
    · rcases getElem?_concat_cases hk with ⟨-, rfl⟩ | hk
      · cases hv
      · exact hk
  | @incVersion k batch hk =>
    have hledger : ledger (Call.numbered name) (σ.stored name)
        (σ.calls.set k (.versioned batch (σ.db.version batch.collectionName)))
        ~ ledger (Call.numbered name) (σ.stored name) σ.calls := ledger_keep hk rfl
    constructor
    · intro x hx y hy
      exact h.numbered x (hledger.subset hx) y (hledger.subset hy)
    · intro j call hj v hv x hx
      have hx := hledger.subset hx
      rcases getElem?_set_cases hj with ⟨-, rfl⟩ | ⟨-, hj⟩
      · -- the counter is above every version that it has given out
        obtain ⟨⟨rfl, -⟩, rfl⟩ := mem_pending.mp hv
        have hversion := mem_numbers.mp (hinv.versions.subset (mem_of_numbered hx).1)
        have := hinv.nonneg
        omega
      · exact h.pending j call hj v hv x hx
  | @incGlobalSeq k batch startVersion hk => exact h.incGlobalSeq hinv horder hk
  | @insert k ids batch startVersion globalStart docs hk hdocs =>
    refine h.of_subset ?_ fun j call hj v hv => ?_
    · rw [stored_insert rfl hdocs]
      exact (ledger_store hk rfl).subset
    · rcases getElem?_set_cases hj with ⟨-, rfl⟩ | ⟨-, hj⟩
      · cases hv
      · exact hj

/-- The versions of a collection run from `0` on and no two of its documents share a position.
Where the calls draw their positions in the order of their versions, the two orders agree. -/
theorem versions_and_positions (h : (system P name).ReachBy (InOrder name) σ) :
    ((∀ call ∈ σ.calls, call.versions name = []) →
      (σ.db.docs name).map (·.streamVersion) ~ numbers 0 (σ.db.docs name).length) ∧
    ((σ.db.docs name).map (·.streamVersion)).Nodup ∧
    ((σ.db.docs name).map (·.globalPosition)).Nodup ∧
    ∀ d ∈ σ.db.docs name, ∀ d' ∈ σ.db.docs name,
      d.streamVersion < d'.streamVersion → d.globalPosition < d'.globalPosition := by
  have hinv := inv_of_reachable h.reachable
  have hagree : Agree name σ := by
    refine System.ReachBy.invariant (P := Agree name) ?_ ?_ h
    · rintro σ ⟨hdocs, -, -, hcalls⟩
      have hstored : σ.stored name = [] := by simp [State.stored, hdocs]
      constructor <;> simp [ledger, hstored, hcalls]
    · intro σ a σ' hreach hagree horder hs
      exact hagree.next (inv_of_reachable hreach.reachable) horder hs
  have hversions : (σ.stored name).map Prod.fst = (σ.db.docs name).map (·.streamVersion) := by
    simp [State.stored, Function.comp_def]
  have hpositions : (σ.stored name).map Prod.snd = (σ.db.docs name).map (·.globalPosition) := by
    simp [State.stored, Function.comp_def]
  refine ⟨fun hdone => ?_, ?_, ?_, fun d hd d' hd' hlt => ?_⟩
  · have hall := hinv.versions
    rw [ledger, List.flatMap_eq_nil_iff.mpr hdone, List.append_nil, hversions] at hall
    have hlength := hall.length_eq
    rw [List.length_map, length_numbers] at hlength
    rwa [hlength]
  · rw [← hversions]
    exact (hinv.versions.nodup_iff.mpr (nodup_numbers ..)).sublist (List.sublist_append_left ..)
  · rw [← hpositions]
    exact hinv.positions.nodup_stored
  · exact hagree.numbered _ (mem_ledger.mpr (.inl (List.mem_map_of_mem hd))) _
      (mem_ledger.mpr (.inl (List.mem_map_of_mem hd'))) hlt

/-! ### A call that is overtaken -/

def batchOf (payload : ℕ) : Batch ℕ := ⟨"order-1", "BenchmarkEvent", [some payload]⟩

def appendStart : State ℕ := ⟨⟨.empty, fun _ => none, fun _ => []⟩, []⟩

/-- The second call draws its position before the first. -/
def overtakenRun : List (Action ℕ) :=
  [.invoke (batchOf 1), .invoke (batchOf 2), .incVersion 0, .incVersion 1, .incGlobalSeq 1,
    .incGlobalSeq 0, .insert 0 fun _ => "a", .insert 1 fun _ => "b"]

theorem versions_and_positions_fails :
    ¬ ∀ σ, (system ℕ "order-1").Reachable σ → (∀ call ∈ σ.calls, call.versions "order-1" = []) →
      (σ.db.docs "order-1").map (·.streamVersion) ~ numbers 0 (σ.db.docs "order-1").length ∧
      ((σ.db.docs "order-1").map (·.streamVersion)).Nodup ∧
      ((σ.db.docs "order-1").map (·.globalPosition)).Nodup ∧
      ∀ d ∈ σ.db.docs "order-1", ∀ d' ∈ σ.db.docs "order-1",
        d.streamVersion < d'.streamVersion → d.globalPosition < d'.globalPosition := by
  intro hclaim
  have hreach := System.reachable_after (M := system ℕ "order-1") overtakenRun (s := appendStart)
    ⟨rfl, rfl, by decide, rfl⟩ (by decide)
  exact absurd (hclaim _ hreach (by decide)).2.2.2 (by decide)

/-- The second call draws its version while the first is between its draws. -/
def inOrderRun : List (Action ℕ) :=
  [.invoke (batchOf 1), .invoke (batchOf 2), .incVersion 0, .incVersion 1, .incGlobalSeq 0,
    .incGlobalSeq 1, .insert 1 fun _ => "b", .insert 0 fun _ => "a"]

theorem versions_and_positions_in_order :
    let docs := ((system ℕ "order-1").after inOrderRun appendStart).db.docs "order-1"
    docs.length = 2 ∧ docs.map (·.streamVersion) ~ numbers 0 docs.length ∧
      ∀ d ∈ docs, ∀ d' ∈ docs,
        d.streamVersion < d'.streamVersion → d.globalPosition < d'.globalPosition := by
  have h := versions_and_positions (System.reachBy_after (M := system ℕ "order-1")
    (C := InOrder "order-1") inOrderRun (s := appendStart) ⟨rfl, rfl, by decide, rfl⟩ (by decide)
    (by decide))
  exact ⟨by decide, h.1 (by decide), h.2.2.2⟩

end EventSourcing.MongoClient.Appends
