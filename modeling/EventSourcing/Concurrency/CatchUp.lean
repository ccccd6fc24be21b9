import Mathlib.Data.List.Count
import Mathlib.Data.List.Sort
import Mathlib.Order.WithBot

/-!
# Reading a growing collection: cursor, then change stream

Documents are only ever added to the collection. A cursor reads those above `last` in the
order of their keys, some at a time, and is exhausted once a read finds fewer than it asked
for. A change stream delivers, in order, the documents added after it was opened.

`Cursor.Reads` says what the reader of a cursor has been given and what it will still be
given, `Follows` the same for a change stream. A document is missed where it is added behind
the cursor or after the cursor is exhausted, and only there (`Cursor.Ahead`).
-/

namespace Concurrency

variable {D K : Type*}

structure Cursor (D K : Type*) where
  /-- the server has read up to this key -/
  last : WithBot K
  /-- the server has nothing left -/
  exhausted : Bool
  /-- documents that were read and not taken yet -/
  fetched : List D

namespace Cursor

variable [LinearOrder K] {key : D → K} {start : WithBot K} {docs new taken : List D}
  {c c' : Cursor D K} {d : D}

def opened (start : WithBot K) : Cursor D K where
  last := start
  exhausted := false
  fetched := []

/-- The documents above `last` in the order of their keys. -/
def remaining (key : D → K) (docs : List D) (last : WithBot K) : List D :=
  (docs.filter fun d => last < key d).insertionSort fun d d' => key d ≤ key d'

/-- The key of the last document of a batch, or `last` where the batch is empty. -/
def reached (key : D → K) (batch : List D) (last : WithBot K) : WithBot K :=
  (batch.getLast?.map fun d => (key d : WithBot K)).getD last

/-- Reads the next `n` documents. -/
def fetch (key : D → K) (docs : List D) (n : ℕ) (c : Cursor D K) : Option (Cursor D K) :=
  if c.exhausted then none
  else
    let batch := (remaining key docs c.last).take n
    some {
      last := reached key batch c.last
      exhausted := batch.length < n
      fetched := c.fetched ++ batch }

/-- Takes the next document that was read. -/
def take (c : Cursor D K) : Option (D × Cursor D K) :=
  match c.fetched with
  | [] => none
  | d :: rest => some (d, { c with fetched := rest })

/-- No document is left to take and none will be read. -/
def Drained (c : Cursor D K) : Prop := c.exhausted = true ∧ c.fetched = []

instance : Decidable c.Drained :=
  inferInstanceAs (Decidable (_ ∧ c.fetched = []))

/-- The cursor will still read `d`. -/
def Ahead (key : D → K) (c : Cursor D K) (d : D) : Prop := c.exhausted = false ∧ c.last < key d

instance : Decidable (c.Ahead key d) := inferInstanceAs (Decidable (_ ∧ _))

/-! ### What is read next -/

lemma mem_remaining {last : WithBot K} : d ∈ remaining key docs last ↔ d ∈ docs ∧ last < key d := by
  simp [remaining, List.mem_insertionSort]

/-- Documents with keys of their own are sorted in strictly ascending order. -/
lemma insertionSort_ascending (hkeys : (docs.map key).Nodup) :
    ((docs.insertionSort fun d d' => key d ≤ key d').map key).Pairwise (· < ·) := by
  have hsorted : ((docs.insertionSort fun d d' => key d ≤ key d').map key).Pairwise (· ≤ ·) := by
    rw [List.pairwise_map]
    exact List.pairwise_insertionSort (fun d d' : D => key d ≤ key d') _
  have hnodup : ((docs.insertionSort fun d d' => key d ≤ key d').map key).Nodup :=
    (((List.perm_insertionSort _ _).map key).nodup_iff).mpr hkeys
  exact (hsorted.and hnodup).imp fun h => lt_of_le_of_ne h.1 h.2

lemma remaining_ascending (hkeys : (docs.map key).Nodup) (last : WithBot K) :
    ((remaining key docs last).map key).Pairwise (· < ·) :=
  insertionSort_ascending (hkeys.sublist (List.filter_sublist.map key))

omit [LinearOrder K] in
lemma reached_cases (key : D → K) (batch : List D) (last : WithBot K) :
    (batch = [] ∧ reached key batch last = last) ∨
      ∃ d ∈ batch, reached key batch last = key d := by
  rcases List.eq_nil_or_concat batch with rfl | ⟨l, d, rfl⟩
  · exact .inl ⟨rfl, rfl⟩
  · exact .inr ⟨d, by simp, by simp [reached]⟩

lemma le_reached {batch : List D} (h : (batch.map key).Pairwise (· < ·)) (last : WithBot K)
    (hd : d ∈ batch) : (key d : WithBot K) ≤ reached key batch last := by
  rcases List.eq_nil_or_concat batch with rfl | ⟨l, e, rfl⟩
  · cases hd
  · simp only [List.concat_eq_append, List.map_append, List.pairwise_append, List.mem_append,
      List.map_singleton, List.mem_singleton] at h hd
    simp only [reached, List.concat_eq_append, List.getLast?_concat, Option.map_some,
      Option.getD_some, WithBot.coe_le_coe]
    rcases hd with hd | rfl
    · exact (h.2.2 _ (List.mem_map_of_mem hd) _ rfl).le
    · exact le_refl _

/-! ### What the reader has been given -/

/-- The reader has taken `taken`, in order, from a cursor that started above `start`. -/
structure Given (key : D → K) (start : WithBot K) (docs taken : List D) (c : Cursor D K) :
    Prop where
  ascending : ((taken ++ c.fetched).map key).Pairwise (· < ·)
  read : ∀ d ∈ taken ++ c.fetched, d ∈ docs ∧ start < key d ∧ key d ≤ c.last
  start_le : start ≤ c.last

/-- The reader has taken `taken` from a cursor that started above `start`. -/
structure Reads (key : D → K) (start : WithBot K) (docs taken : List D) (c : Cursor D K) :
    Prop where
  /-- what is read ascends -/
  ascending : ((taken ++ c.fetched).map key).Pairwise (· < ·)
  read : ∀ d ∈ taken ++ c.fetched, d ∈ docs ∧ start < key d ∧ key d ≤ c.last
  unread : ∀ d ∈ docs, start < key d → d ∈ taken ++ c.fetched ∨ c.Ahead key d
  last : c.last = start ∨ ∃ d ∈ docs, start < key d ∧ c.last = key d

lemma given_opened : Given key start docs [] (opened start) where
  ascending := .nil
  read _ hd := absurd hd List.not_mem_nil
  start_le := le_refl _

lemma reads_opened : Reads key start docs [] (opened start) where
  ascending := .nil
  read _ hd := absurd hd List.not_mem_nil
  unread _ _ hstart := .inr ⟨rfl, hstart⟩
  last := .inl rfl

lemma Reads.start_le (h : Reads key start docs taken c) : start ≤ c.last := by
  rcases h.last with heq | ⟨d, -, hlt, heq⟩
  · exact heq.ge
  · exact heq ▸ hlt.le

lemma Reads.given (h : Reads key start docs taken c) : Given key start docs taken c :=
  ⟨h.ascending, h.read, h.start_le⟩

/-- A read takes the first documents above the cursor, and it takes `n` or all of them. -/
lemma fetch_eq_some {n : ℕ} (hkeys : (docs.map key).Nodup) (hs : c.fetch key docs n = some c') :
    ∃ batch, c'.fetched = c.fetched ++ batch ∧ (batch.map key).Pairwise (· < ·) ∧
      (∀ d ∈ batch, d ∈ docs ∧ c.last < key d ∧ key d ≤ c'.last) ∧
      (batch = [] ∧ c'.last = c.last ∨ ∃ d ∈ batch, c'.last = key d) ∧
      ∀ d ∈ docs, c.last < key d → d ∈ batch ∨ c'.Ahead key d := by
  simp only [Cursor.fetch] at hs
  split_ifs at hs with hex
  obtain rfl := Option.some.inj hs
  have hasc := remaining_ascending hkeys c.last
  have hmem : ∀ d, d ∈ remaining key docs c.last ↔ d ∈ docs ∧ c.last < key d :=
    fun d => mem_remaining
  generalize remaining key docs c.last = r at hasc hmem
  have hsplit : ((r.take n ++ r.drop n).map key).Pairwise (· < ·) := by
    rwa [List.take_append_drop]
  rw [List.map_append, List.pairwise_append] at hsplit
  refine ⟨r.take n, rfl, hsplit.1, ?_, reached_cases key _ _, ?_⟩
  · intro d hd
    obtain ⟨hdocs, hlast⟩ := (hmem d).mp (List.mem_of_mem_take hd)
    exact ⟨hdocs, hlast, le_reached hsplit.1 c.last hd⟩
  · intro d hd hlast
    have hdr : d ∈ r := (hmem d).mpr ⟨hd, hlast⟩
    rw [← List.take_append_drop n r] at hdr
    rcases List.mem_append.mp hdr with hdr | hdr
    · exact .inl hdr
    · -- what is left over shows that the read found all it asked for
      have hlen : n < r.length := by
        by_contra hge
        rw [List.drop_eq_nil_of_le (not_lt.mp hge)] at hdr
        cases hdr
      refine .inr ⟨by simp [List.length_take]; omega, ?_⟩
      show reached key (r.take n) c.last < key d
      rcases reached_cases key (r.take n) c.last with ⟨-, heq⟩ | ⟨d', hd', heq⟩
      · rwa [heq]
      · rw [heq, WithBot.coe_lt_coe]
        exact hsplit.2.2 _ (List.mem_map_of_mem hd') _ (List.mem_map_of_mem hdr)

/-- A read that asks for more than there is finds the end. -/
lemma exhausted_of_fetch {n : ℕ} (hn : docs.length < n) (hs : c.fetch key docs n = some c') :
    c'.exhausted = true := by
  simp only [Cursor.fetch] at hs
  split_ifs at hs
  obtain rfl := Option.some.inj hs
  have hle : (remaining key docs c.last).length ≤ docs.length := by
    rw [remaining, List.length_insertionSort]
    exact List.length_filter_le ..
  simp only [List.length_take, decide_eq_true_eq]
  omega

lemma Given.fetch {n : ℕ} (h : Given key start docs taken c) (hkeys : (docs.map key).Nodup)
    (hs : c.fetch key docs n = some c') : Given key start docs taken c' := by
  obtain ⟨batch, hfetched, hasc, hbatch, hlast, -⟩ := fetch_eq_some hkeys hs
  have hle : c.last ≤ c'.last := by
    rcases hlast with ⟨-, heq⟩ | ⟨d, hd, heq⟩
    · exact heq.ge
    · exact heq ▸ (hbatch d hd).2.1.le
  refine ⟨?_, ?_, h.start_le.trans hle⟩
  · rw [hfetched, ← List.append_assoc, List.map_append, List.pairwise_append]
    refine ⟨h.ascending, hasc, ?_⟩
    simp only [List.forall_mem_map]
    intro d hd d' hd'
    exact WithBot.coe_lt_coe.mp ((h.read d hd).2.2.trans_lt (hbatch d' hd').2.1)
  · intro d hd
    rw [hfetched, ← List.append_assoc] at hd
    rcases List.mem_append.mp hd with hd | hd
    · obtain ⟨hdocs, hstart, hlast⟩ := h.read d hd
      exact ⟨hdocs, hstart, hlast.trans hle⟩
    · obtain ⟨hdocs, hlast, hreached⟩ := hbatch d hd
      exact ⟨hdocs, h.start_le.trans_lt hlast, hreached⟩

/-- A read gives the reader the documents above the cursor up to where it now stands. -/
lemma Reads.fetch {n : ℕ} (h : Reads key start docs taken c) (hkeys : (docs.map key).Nodup)
    (hs : c.fetch key docs n = some c') : Reads key start docs taken c' := by
  obtain ⟨batch, hfetched, -, hbatch, hlast, hahead⟩ := fetch_eq_some hkeys hs
  have hgiven := h.given.fetch hkeys hs
  refine ⟨hgiven.ascending, hgiven.read, ?_, ?_⟩
  · intro d hd hstart
    rw [hfetched, ← List.append_assoc]
    rcases h.unread d hd hstart with hread | hunread
    · exact .inl (List.mem_append_left _ hread)
    · exact (hahead d hd hunread.2).imp_left (List.mem_append_right _)
  · rcases hlast with ⟨-, heq⟩ | ⟨d, hd, heq⟩
    · exact heq ▸ h.last
    · obtain ⟨hdocs, hlt, -⟩ := hbatch d hd
      exact .inr ⟨d, hdocs, h.start_le.trans_lt hlt, heq⟩

omit [LinearOrder K] in
lemma take_eq_some (hs : c.take = some (d, c')) :
    c.fetched = d :: c'.fetched ∧ c'.last = c.last ∧ c'.exhausted = c.exhausted := by
  simp only [take] at hs
  split at hs
  · cases hs
  · rename_i heq
    cases hs
    exact ⟨heq, rfl, rfl⟩

lemma Given.take (h : Given key start docs taken c) (hs : c.take = some (d, c')) :
    Given key start docs (taken ++ [d]) c' := by
  obtain ⟨hfetched, hlast, -⟩ := take_eq_some hs
  have heq : taken ++ [d] ++ c'.fetched = taken ++ c.fetched := by simp [hfetched]
  exact ⟨heq ▸ h.ascending, heq ▸ hlast ▸ h.read, hlast ▸ h.start_le⟩

lemma Given.append (h : Given key start docs taken c) :
    Given key start (docs ++ new) taken c where
  ascending := h.ascending
  read d hd := ⟨List.mem_append_left _ (h.read d hd).1, (h.read d hd).2⟩
  start_le := h.start_le

lemma Reads.take (h : Reads key start docs taken c) (hs : c.take = some (d, c')) :
    Reads key start docs (taken ++ [d]) c' := by
  obtain ⟨hfetched, hlast, hex⟩ := take_eq_some hs
  have heq : taken ++ [d] ++ c'.fetched = taken ++ c.fetched := by simp [hfetched]
  exact ⟨heq ▸ h.ascending, heq ▸ hlast ▸ h.read,
    fun e he hstart => by simpa [heq, Ahead, hlast, hex] using h.unread e he hstart,
    hlast ▸ h.last⟩

/-- Documents added ahead of the cursor will be read. -/
lemma Reads.append (h : Reads key start docs taken c)
    (hnew : ∀ d ∈ new, start < key d → c.Ahead key d) :
    Reads key start (docs ++ new) taken c where
  ascending := h.ascending
  read d hd := ⟨List.mem_append_left _ (h.read d hd).1, (h.read d hd).2⟩
  unread d hd hstart := by
    rcases List.mem_append.mp hd with hd | hd
    · exact h.unread d hd hstart
    · exact .inr (hnew d hd hstart)
  last := h.last.imp_right fun ⟨d, hd, hlast⟩ => ⟨d, List.mem_append_left _ hd, hlast⟩

/-- A document above everything in the collection is ahead of a cursor that is not exhausted. -/
lemma Reads.ahead (h : Reads key start docs taken c) (hex : c.exhausted = false)
    (habove : ∀ d' ∈ docs, key d' < key d) (hstart : start < key d) : c.Ahead key d := by
  refine ⟨hex, ?_⟩
  rcases h.last with heq | ⟨d', hd', -, heq⟩
  · exact heq ▸ hstart
  · exact heq ▸ WithBot.coe_lt_coe.mpr (habove d' hd')

/-- A reader that asks again may find documents that were added since. -/
lemma Reads.reopen (h : Reads key start docs taken c) :
    Reads key start docs taken { c with exhausted := false } where
  ascending := h.ascending
  read := h.read
  unread d hd hstart := (h.unread d hd hstart).imp_right fun hahead => ⟨rfl, hahead.2⟩
  last := h.last

/-- The reader of a drained cursor has taken every document above the start. -/
lemma Reads.drained (h : Reads key start docs taken c) (hc : c.Drained) :
    ∀ d ∈ docs, start < key d → d ∈ taken := by
  intro d hd hstart
  rcases h.unread d hd hstart with hread | hahead
  · simpa [hc.2] using hread
  · exact absurd (hc.1.symm.trans hahead.1) (by simp)

/-- What an exhausted cursor has read is the whole of an ascending collection. -/
lemma Reads.complete (h : Reads key ⊥ docs taken c) (hex : c.exhausted = true)
    (hdocs : (docs.map key).Pairwise (· < ·)) : taken ++ c.fetched = docs := by
  refine (List.pairwise_map.mp h.ascending).eq_of_mem_iff (List.pairwise_map.mp hdocs) ?_
  intro d
  constructor
  · intro hd
    exact (h.read d hd).1
  · intro hd
    rcases h.unread d hd (WithBot.bot_lt_coe _) with hread | hahead
    · exact hread
    · exact absurd (hex.symm.trans hahead.1) (by simp)

end Cursor

/-! ### The change stream -/

/-- The reader has taken `taken`, the last of it from a change stream that delivers the
document at place `next` of the collection next. -/
structure Follows [LinearOrder K] [DecidableEq D] (key : D → K) (start : WithBot K)
    (docs taken : List D) (next : ℕ) : Prop where
  le : next ≤ docs.length
  read : ∀ d ∈ taken, d ∈ docs.take next
  once : ∀ d ∈ docs.take next, start < key d → taken.count d = 1

section Follows

variable [LinearOrder K] [DecidableEq D] {key : D → K} {start : WithBot K}
  {docs new taken : List D} {c : Cursor D K} {d : D} {next : ℕ}

/-- A change stream that is opened on a drained cursor has nothing to make up for. -/
lemma Cursor.Reads.watch (h : c.Reads key start docs taken) (hc : c.Drained) :
    Follows key start docs taken docs.length where
  le := le_refl _
  read d hd := by simpa using (h.read d (List.mem_append_left _ hd)).1
  once d hd hstart := by
    have hnodup : taken.Nodup := by
      have hasc := h.ascending
      simp only [hc.2, List.append_nil] at hasc
      exact .of_map key (hasc.imp ne_of_lt)
    exact List.count_eq_one_of_mem hnodup (h.drained hc d (List.mem_of_mem_take hd) hstart)

lemma Follows.append (h : Follows key start docs taken next) :
    Follows key start (docs ++ new) taken next where
  le := h.le.trans (by simp)
  read := by simpa [List.take_append_of_le_length h.le] using h.read
  once := by simpa [List.take_append_of_le_length h.le] using h.once

lemma Follows.receive (h : Follows key start docs taken next) (hdocs : docs.Nodup)
    (hd : docs[next]? = some d) : Follows key start docs (taken ++ [d]) (next + 1) := by
  have hlt : next < docs.length := (List.getElem?_eq_some_iff.mp hd).1
  have htake : docs.take (next + 1) = docs.take next ++ [d] := by simp [List.take_add_one, hd]
  have hnodup := hdocs.sublist (List.take_sublist (next + 1) docs)
  rw [htake, List.nodup_append] at hnodup
  have hnew : d ∉ taken := fun hmem => hnodup.2.2 d (h.read d hmem) d (by simp) rfl
  refine ⟨hlt, fun e he => ?_, fun e he hstart => ?_⟩
  · rw [htake]
    exact List.mem_append.mpr ((List.mem_append.mp he).imp_left (h.read e))
  · rcases List.mem_append.mp (htake ▸ he) with he | he
    · have hne : d ≠ e := (hnodup.2.2 e he d (by simp)).symm
      simpa [hne] using h.once e he hstart
    · obtain rfl : e = d := by simpa using he
      simp [List.count_eq_zero_of_not_mem hnew]

/-- Once the change stream is drained, every document above the start was taken once. -/
lemma Follows.drained (h : Follows key start docs taken docs.length) :
    ∀ d ∈ docs, start < key d → taken.count d = 1 := by
  simpa using h.once

end Follows

/-! ### The order of a change stream -/

/-- The reader has taken `taken`, in order, the last of it from a change stream that delivers the
document at place `next` of the collection next. -/
structure Received [LinearOrder K] (key : D → K) (docs taken : List D) (next : ℕ) : Prop where
  le : next ≤ docs.length
  ascending : (taken.map key).Pairwise (· < ·)
  read : ∀ d ∈ taken, d ∈ docs.take next

section Received

variable [LinearOrder K] {key : D → K} {start : WithBot K} {docs new taken : List D}
  {c : Cursor D K} {d : D} {next : ℕ}

/-- A change stream goes on where the cursor was. -/
lemma Cursor.Given.watch (h : c.Given key start docs taken) :
    Received key docs taken docs.length where
  le := le_refl _
  ascending := h.ascending.sublist ((List.sublist_append_left _ _).map key)
  read d hd := by simpa using (h.read d (List.mem_append_left _ hd)).1

lemma Received.append (h : Received key docs taken next) :
    Received key (docs ++ new) taken next where
  le := h.le.trans (by simp)
  ascending := h.ascending
  read := by
    rw [List.take_append_of_le_length h.le]
    exact h.read

/-- Where documents are added in ascending order, those taken from the stream come after all that
was taken before. -/
lemma Received.receive (h : Received key docs taken next)
    (hdocs : (docs.map key).Pairwise (· < ·)) (hd : docs[next]? = some d) :
    Received key docs (taken ++ [d]) (next + 1) where
  le := (List.getElem?_eq_some_iff.mp hd).1
  ascending := by
    have htake : docs.take (next + 1) = docs.take next ++ [d] := by simp [List.take_add_one, hd]
    have hasc := hdocs.sublist ((List.take_sublist (next + 1) docs).map key)
    rw [htake, List.map_append, List.pairwise_append] at hasc
    rw [List.map_append, List.pairwise_append]
    refine ⟨h.ascending, hasc.2.1, ?_⟩
    simp only [List.forall_mem_map]
    intro e he e' he'
    exact hasc.2.2 _ (List.mem_map_of_mem (h.read e he)) _ (List.mem_map_of_mem he')
  read e he := by
    rw [List.take_add_one, hd, List.mem_append]
    exact (List.mem_append.mp he).imp_left (h.read e)

end Received

/-! ### The cursor and then the change stream -/

/-- What a reader reads from: first a cursor, then a change stream. -/
inductive Source (D K : Type*) where
  | opening
  | cursor (c : Cursor D K)
  | stream (next : ℕ)
  /-- the reader has ended -/
  | closed

namespace Source

inductive Step where
  | find
  /-- the cursor reads the next `n` documents -/
  | fetch (n : ℕ)
  | take
  | watch
  | receive
  /-- a request of the reader fails; `ends` tells whether a read of the cursor that fails is its
  last -/
  | fail (ends : Bool)
  deriving DecidableEq

/-- The reader has taken everything from its cursor. -/
def Drained : Source D K → Prop
  | cursor c => c.Drained
  | _ => False

instance : (source : Source D K) → Decidable source.Drained
  | opening | stream _ | closed => isFalse not_false
  | cursor c => inferInstanceAs (Decidable c.Drained)

variable [LinearOrder K] (key : D → K) (start : WithBot K) (docs : List D)

/-- A step of the reader, and the document it is given. -/
def next : Source D K → Step → Option (Option D × Source D K)
  | opening, .find => some (none, cursor (.opened start))
  | cursor c, .fetch n => (c.fetch key docs n).map fun c => (none, cursor c)
  | cursor c, .take => c.take.map fun (d, c) => (some d, cursor c)
  | cursor c, .watch => if c.Drained then some (none, stream docs.length) else none
  | stream next, .receive => docs[next]?.map fun d => (some d, stream (next + 1))
  -- the reader goes on after an error of the cursor, and ends with any other
  | cursor c, .fail ends =>
    if c.Drained then some (none, closed)
    else if c.exhausted then none
    else some (none, cursor { c with exhausted := ends })
  | opening, .fail _ => some (none, closed)
  | stream _, .fail _ => some (none, closed)
  | _, _ => none

/-- `d` is read by the cursor, or delivered by the change stream, though it is added now. -/
def Awaits (d : D) : Source D K → Prop
  | cursor c => c.Ahead key d
  | _ => True

instance (d : D) : (source : Source D K) → Decidable (source.Awaits key d)
  | opening => isTrue trivial
  | cursor c => inferInstanceAs (Decidable (c.Ahead key d))
  | stream _ => isTrue trivial
  | closed => isTrue trivial

/-- The cursor will still read `d`. -/
def Ahead (d : D) : Source D K → Prop
  | cursor c => c.Ahead key d
  | _ => False

instance (d : D) : (source : Source D K) → Decidable (source.Ahead key d)
  | opening | stream _ | closed => isFalse not_false
  | cursor c => inferInstanceAs (Decidable (c.Ahead key d))

/-- The cursor ends with an error before it has read every document. -/
def Loses (source : Source D K) (step : Step) : Prop :=
  step = .fail true ∧ ∃ d ∈ docs, source.Ahead key d

instance (source : Source D K) (step : Step) : Decidable (source.Loses key docs step) :=
  inferInstanceAs (Decidable (_ ∧ _))

variable [DecidableEq D]

/-- The reader has been given `taken` so far. -/
def Gives (taken : List D) : Source D K → Prop
  | opening => taken = []
  | cursor c => c.Reads key start docs taken
  | stream next => Follows key start docs taken next
  | closed => True

variable {key start docs} {new taken : List D} {source source' : Source D K} {d? : Option D}

omit [DecidableEq D] in
lemma eq_stream_of_receive (hs : source.next key start docs .receive = some (d?, source')) :
    ∃ n, source = stream n := by
  cases source with
  | stream n => exact ⟨n, rfl⟩
  | _ => cases hs

omit [DecidableEq D] in
/-- A step that fails gives no document and does not lead to a change stream. -/
lemma next_fail {ends : Bool} (hs : source.next key start docs (.fail ends) = some (d?, source')) :
    d? = none ∧ (source' = closed ∨ ∃ c, source = cursor c ∧ c.exhausted = false ∧
      source' = cursor { c with exhausted := ends }) := by
  cases source with
  | opening =>
    obtain ⟨rfl, rfl⟩ := Prod.mk.inj (Option.some.inj hs)
    exact ⟨rfl, .inl rfl⟩
  | cursor c =>
    simp only [next] at hs
    split_ifs at hs with hdrained hexhausted
    · obtain ⟨rfl, rfl⟩ := Prod.mk.inj (Option.some.inj hs)
      exact ⟨rfl, .inl rfl⟩
    · obtain ⟨rfl, rfl⟩ := Prod.mk.inj (Option.some.inj hs)
      exact ⟨rfl, .inr ⟨c, rfl, by simpa using hexhausted, rfl⟩⟩
  | stream n =>
    obtain ⟨rfl, rfl⟩ := Prod.mk.inj (Option.some.inj hs)
    exact ⟨rfl, .inl rfl⟩
  | closed => cases hs

omit [DecidableEq D] in
/-- The change stream is reached by opening it on a drained cursor or by receiving from it. -/
lemma next_eq_stream {step : Step} {n : ℕ}
    (hs : source.next key start docs step = some (d?, stream n)) :
    (step = .watch ∧ source.Drained ∧ d? = none) ∨ step = .receive := by
  cases step with
  | receive => exact .inr rfl
  | fail ends =>
    rcases (next_fail hs).2 with hclosed | ⟨c, -, -, hcursor⟩
    · cases hclosed
    · cases hcursor
  | find =>
    cases source with
    | opening => cases hs
    | _ => cases hs
  | fetch k =>
    cases source with
    | cursor c =>
      obtain ⟨c', -, heq⟩ := Option.map_eq_some_iff.mp hs
      cases heq
    | _ => cases hs
  | take =>
    cases source with
    | cursor c =>
      obtain ⟨⟨d, c'⟩, -, heq⟩ := Option.map_eq_some_iff.mp hs
      cases heq
    | _ => cases hs
  | watch =>
    cases source with
    | cursor c =>
      simp only [Source.next] at hs
      split_ifs at hs with hdrained
      exact .inl ⟨rfl, hdrained, (Prod.mk.inj (Option.some.inj hs)).1.symm⟩
    | _ => cases hs

lemma Gives.append (h : source.Gives key start docs taken)
    (hnew : ∀ d ∈ new, start < key d → source.Awaits key d) :
    source.Gives key start (docs ++ new) taken := by
  cases source with
  | opening => exact h
  | cursor c => exact Cursor.Reads.append h hnew
  | stream next => exact Follows.append h
  | closed => trivial

/-- A cursor that fails and has read every document, or goes on, owes nothing. -/
lemma Gives.fail {ends : Bool} (h : source.Gives key start docs taken)
    (hloses : ¬ source.Loses key docs (.fail ends))
    (hs : source.next key start docs (.fail ends) = some (d?, source')) :
    source'.Gives key start docs (taken ++ d?.toList) := by
  obtain ⟨rfl, rfl | ⟨c, rfl, hexhausted, rfl⟩⟩ := next_fail hs
  · trivial
  · rw [Option.toList_none, List.append_nil]
    cases ends with
    | false => rwa [← hexhausted]
    | true =>
      have hreads : c.Reads key start docs taken := h
      refine ⟨hreads.ascending, hreads.read, fun d hd hstart => ?_, hreads.last⟩
      rcases hreads.unread d hd hstart with hread | hahead
      · exact .inl hread
      · exact absurd ⟨rfl, d, hd, hahead⟩ hloses

/-- A step of the reader that loses nothing accounts for the document it is given. -/
lemma Gives.next (h : source.Gives key start docs taken) (hkeys : (docs.map key).Nodup)
    {step : Step} (hloses : ¬ source.Loses key docs step)
    (hs : source.next key start docs step = some (d?, source')) :
    source'.Gives key start docs (taken ++ d?.toList) := by
  cases step with
  | find =>
    cases source with
    | opening =>
      obtain ⟨rfl, rfl⟩ := Prod.mk.inj (Option.some.inj hs)
      obtain rfl : taken = [] := h
      exact Cursor.reads_opened
    | _ => cases hs
  | fetch n =>
    cases source with
    | cursor c =>
      obtain ⟨c', hc, heq⟩ := Option.map_eq_some_iff.mp hs
      obtain ⟨rfl, rfl⟩ := Prod.mk.inj heq
      simpa [Gives] using Cursor.Reads.fetch h hkeys hc
    | _ => cases hs
  | take =>
    cases source with
    | cursor c =>
      obtain ⟨⟨d, c'⟩, hc, heq⟩ := Option.map_eq_some_iff.mp hs
      obtain ⟨rfl, rfl⟩ := Prod.mk.inj heq
      exact Cursor.Reads.take h hc
    | _ => cases hs
  | watch =>
    cases source with
    | cursor c =>
      simp only [Source.next] at hs
      split_ifs at hs with hc
      obtain ⟨rfl, rfl⟩ := Prod.mk.inj (Option.some.inj hs)
      simpa [Gives] using Cursor.Reads.watch h hc
    | _ => cases hs
  | receive =>
    cases source with
    | stream next =>
      obtain ⟨d, hd, heq⟩ := Option.map_eq_some_iff.mp hs
      obtain ⟨rfl, rfl⟩ := Prod.mk.inj heq
      exact Follows.receive h (.of_map key hkeys) hd
    | _ => cases hs
  | fail ends => exact h.fail hloses hs

end Source

end Concurrency
