import Mathlib.Data.List.Induction
import Mathlib.Data.List.Nodup

/-!
# The events collection under any operations

What the bootstrap puts on the collection `events` decides which documents may stand in it: the
validator asks for the fields of an envelope, the unique indexes for distinct `_id`s and
distinct pairs of stream and version. Neither looks at what a document was before. So the events
stay as they are exactly where the operations themselves leave them alone: where none deletes a
valid document, or writes another valid event over one (`append_only_iff`).
-/

namespace EventSourcing.Mongo.Collection

/-! ### Documents -/

inductive BsonType where
  | string
  | int
  | long
  | object
  | other (tag : UInt8)
  deriving DecidableEq

/-- A BSON value: its type and its bytes. -/
structure Bson where
  bsonType : BsonType
  content : List UInt8
  deriving DecidableEq

structure Document where
  id : Bson
  fields : List (String × Bson)
  deriving DecidableEq

def Document.get (d : Document) (name : String) : Option Bson :=
  (d.fields.find? fun field => field.1 = name).map (·.2)

/-- How the server compares the keys of its indexes; a value equals itself. -/
structure KeyOrder where
  same : Option Bson → Option Bson → Bool
  refl : ∀ b, same b b = true

/-! ### The rules of the collection -/

/-- The properties of the `$jsonSchema`, all of which are required. -/
def schema : List (String × List BsonType) :=
  [("event_id", [.string]), ("stream_id", [.string]), ("stream_version", [.long]),
    ("global_position", [.long]), ("event_type", [.string]), ("schema_version", [.int, .long]),
    ("payload", [.object])]

/-- The validator, whose action is to refuse the write. -/
def Document.valid (d : Document) : Bool :=
  schema.all fun (name, types) => (d.get name).any fun v => v.bsonType ∈ types

variable (keys : KeyOrder)

/-- The two documents have one key of `uq_stream_version`. -/
def sameVersion (d d' : Document) : Bool :=
  keys.same (d.get "stream_id") (d'.get "stream_id") &&
    keys.same (d.get "stream_version") (d'.get "stream_version")

/-- An insert next to `docs` is accepted. -/
def acceptsInsert (docs : List Document) (d : Document) : Bool :=
  d.valid && docs.all fun e => !keys.same (some e.id) (some d.id) && !sameVersion keys e d

/-- A write of `d'` over `d` next to `others` is accepted; the `_id` cannot be changed. -/
def acceptsWrite (others : List Document) (d d' : Document) : Bool :=
  d'.id = d.id && d'.valid && others.all fun e => !sameVersion keys e d'

/-! ### Operations -/

inductive Op where
  | insert (d : Document)
  /-- `update_one`, `update_many`: the matching documents, what the update makes of one, and
  what an upsert inserts where none matches -/
  | update (matching : Document → Bool) (f : Document → Document) (many : Bool)
      (upsert : Option Document)
  /-- `replace_one` by a document, which takes over the `_id` unless it has one -/
  | replace (matching : Document → Bool) (id : Option Bson) (fields : List (String × Bson))
      (upsert : Option Document)
  | delete (matching : Document → Bool) (many : Bool)

/-- The writes of an update, one document after the other; a refused one ends the operation. -/
def rewrite (matching : Document → Bool) (f : Document → Document) (many : Bool)
    (before : List Document) : List Document → List Document
  | [] => before
  | d :: rest =>
    if matching d then
      if acceptsWrite keys (before ++ rest) d (f d) then
        if many then rewrite matching f many (before ++ [f d]) rest else before ++ f d :: rest
      else before ++ d :: rest
    else rewrite matching f many (before ++ [d]) rest

def insert (docs : List Document) (d : Document) : List Document :=
  if acceptsInsert keys docs d then docs ++ [d] else docs

/-- An update with its upsert. -/
def update (docs : List Document) (matching : Document → Bool) (f : Document → Document)
    (many : Bool) (upsert : Option Document) : List Document :=
  if docs.any matching then rewrite keys matching f many [] docs
  else match upsert with
    | some d => insert keys docs d
    | none => docs

/-- What a replacement makes of a document. -/
def replacement (id : Option Bson) (fields : List (String × Bson)) (d : Document) : Document :=
  ⟨id.getD d.id, fields⟩

def delete (docs : List Document) (matching : Document → Bool) (many : Bool) : List Document :=
  if many then docs.filter fun d => !matching d else docs.eraseP matching

/-- What an operation makes of the collection. -/
def apply (docs : List Document) : Op → List Document
  | .insert d => insert keys docs d
  | .update matching f many upsert => update keys docs matching f many upsert
  | .replace matching id fields upsert =>
    update keys docs matching (replacement id fields) false upsert
  | .delete matching many => delete docs matching many

/-- The collection after operations on the empty one. -/
def exec (ops : List Op) : List Document := ops.foldl (apply keys) []

/-! ### Events that stay as they are -/

/-- The fields that make an event. -/
def eventFields : List String := ["stream_id", "stream_version", "event_type", "payload"]

def SameEvent (d d' : Document) : Prop := ∀ name ∈ eventFields, d'.get name = d.get name

/-- One document has the `_id` of the event, and it is that event unchanged. -/
def Present (d : Document) (docs : List Document) : Prop :=
  ∃ d' ∈ docs, SameEvent d d' ∧ ∀ e ∈ docs, e.id = d.id ↔ e = d'

/-- From every moment of the run on, every stored event stays as it is. -/
def AppendOnly (ops : List Op) : Prop :=
  ∀ i j, i ≤ j → ∀ d ∈ exec keys (ops.take i), Present d (exec keys (ops.take j))

/-- Where the update matches a valid document and makes a valid one of it under the same `_id`, it
is the same event. -/
def UpdateKeeps (matching : Document → Bool) (f : Document → Document) : Prop :=
  ∀ d, d.valid = true → matching d = true → (f d).id = d.id → (f d).valid = true → SameEvent d (f d)

/-- What the operation does to a valid document, whatever else is stored: it deletes none and
makes no other valid event of one. -/
def Op.KeepsValid : Op → Prop
  | .insert _ => True
  | .update matching f _ _ => UpdateKeeps matching f
  | .replace matching id fields _ => UpdateKeeps matching (replacement id fields)
  | .delete matching _ => ∀ d, d.valid = true → matching d = false

variable {keys} {docs before : List Document} {d d' : Document} {op : Op} {ops : List Op}
  {matching : Document → Bool} {f : Document → Document} {many : Bool}

/-! ### One document for each `_id` -/

def UniqueIds (docs : List Document) : Prop := (docs.map Document.id).Nodup

lemma UniqueIds.eq (h : UniqueIds docs) (hd : d ∈ docs) (hd' : d' ∈ docs) (hid : d'.id = d.id) :
    d' = d :=
  List.inj_on_of_nodup_map h hd' hd hid

/-- A document has the `_id` of the event and is that event. -/
def Kept (d : Document) (docs : List Document) : Prop := ∃ d' ∈ docs, d'.id = d.id ∧ SameEvent d d'

lemma UniqueIds.present (h : UniqueIds docs) (hkept : Kept d docs) : Present d docs := by
  obtain ⟨d', hd', hid, hsame⟩ := hkept
  refine ⟨d', hd', hsame, fun e he => ⟨fun heid => h.eq hd' he (heid.trans hid.symm), ?_⟩⟩
  rintro rfl
  exact hid

lemma Present.kept (h : Present d docs) : Kept d docs := by
  obtain ⟨d', hd', hsame, hid⟩ := h
  exact ⟨d', hd', (hid d' hd').mpr rfl, hsame⟩

lemma kept_of_mem (hd : d ∈ docs) : Kept d docs := ⟨d, hd, rfl, fun _ _ => rfl⟩

lemma Kept.trans (h : Kept d docs) {docs' : List Document} (hkept : ∀ e ∈ docs, Kept e docs') :
    Kept d docs' := by
  obtain ⟨e, he, hid, hsame⟩ := h
  obtain ⟨e', he', hid', hsame'⟩ := hkept e he
  exact ⟨e', he', hid'.trans hid, fun name hname => (hsame' name hname).trans (hsame name hname)⟩

lemma insert_sublist (docs : List Document) (d : Document) : docs.Sublist (insert keys docs d) := by
  rw [insert]
  split_ifs
  · exact List.sublist_append_left docs [d]
  · exact List.Sublist.refl docs

lemma UniqueIds.insert (h : UniqueIds docs) (d : Document) : UniqueIds (insert keys docs d) := by
  rw [Collection.insert]
  split_ifs with haccepts
  · simp only [acceptsInsert, Bool.and_eq_true, List.all_eq_true, Bool.not_eq_true'] at haccepts
    have hnew : d.id ∉ docs.map Document.id := by
      rintro hmem
      obtain ⟨e, he, hid⟩ := List.mem_map.mp hmem
      have hdiffers := (haccepts.2 e he).1
      rw [hid, keys.refl] at hdiffers
      cases hdiffers
    rw [UniqueIds, List.map_append, List.map_singleton, ← List.concat_eq_append]
    exact h.concat hnew
  · exact h

lemma id_of_acceptsWrite {others : List Document} (h : acceptsWrite keys others d d' = true) :
    d'.id = d.id := by
  simp only [acceptsWrite, Bool.and_eq_true, decide_eq_true_eq] at h
  exact h.1.1

/-- An update writes its documents under the `_id`s they had. -/
lemma map_id_rewrite (before docs : List Document) :
    (rewrite keys matching f many before docs).map Document.id
      = (before ++ docs).map Document.id := by
  induction docs generalizing before with
  | nil => simp [rewrite]
  | cons d rest ih =>
    rw [rewrite]
    split_ifs with hmatching haccepts hmany
    · have hid := id_of_acceptsWrite haccepts
      rw [ih]
      simp [hid]
    · have hid := id_of_acceptsWrite haccepts
      simp [hid]
    · rfl
    · rw [ih]
      simp

lemma subset_rewrite (before docs : List Document) :
    before ⊆ rewrite keys matching f many before docs := by
  induction docs generalizing before with
  | nil => exact List.Subset.refl before
  | cons d rest ih =>
    rw [rewrite]
    split_ifs
    · exact List.Subset.trans (List.subset_append_left before [f d]) (ih _)
    · exact List.subset_append_left _ _
    · exact List.subset_append_left _ _
    · exact List.Subset.trans (List.subset_append_left before [d]) (ih _)

lemma UniqueIds.update (h : UniqueIds docs) (upsert : Option Document) :
    UniqueIds (update keys docs matching f many upsert) := by
  simp only [Collection.update]
  split_ifs
  · rw [UniqueIds, map_id_rewrite]
    exact h
  · cases upsert with
    | none => exact h
    | some d => exact h.insert d

lemma UniqueIds.apply (h : UniqueIds docs) (op : Op) : UniqueIds (apply keys docs op) := by
  cases op with
  | insert d => exact h.insert d
  | update matching f many upsert => exact h.update upsert
  | replace matching id fields upsert => exact h.update upsert
  | delete matching many =>
    rw [Collection.apply, delete]
    split_ifs
    · exact List.Nodup.sublist (List.filter_sublist.map _) h
    · exact List.Nodup.sublist (List.eraseP_sublist.map _) h

lemma uniqueIds_exec (ops : List Op) : UniqueIds (exec keys ops) := by
  induction ops using List.reverseRecOn with
  | nil => exact List.nodup_nil
  | append_singleton ops op ih =>
    rw [exec, List.foldl_append]
    exact UniqueIds.apply ih op

/-! ### Valid documents -/

def AllValid (docs : List Document) : Prop := ∀ d ∈ docs, d.valid = true

lemma valid_of_acceptsWrite {others : List Document} (h : acceptsWrite keys others d d' = true) :
    d'.valid = true := by
  simp only [acceptsWrite, Bool.and_eq_true] at h
  exact h.1.2

lemma AllValid.insert (h : AllValid docs) (d : Document) : AllValid (insert keys docs d) := by
  rw [Collection.insert]
  split_ifs with haccepts
  · simp only [acceptsInsert, Bool.and_eq_true] at haccepts
    intro e he
    rcases List.mem_append.mp he with he | he
    · exact h e he
    · rw [List.mem_singleton.mp he]
      exact haccepts.1
  · exact h

lemma AllValid.rewrite (h : AllValid (before ++ docs)) :
    AllValid (rewrite keys matching f many before docs) := by
  induction docs generalizing before with
  | nil => simpa [Collection.rewrite] using h
  | cons d rest ih =>
    rw [Collection.rewrite]
    split_ifs with hmatching haccepts hmany
    · have hvalid := valid_of_acceptsWrite haccepts
      refine ih fun e he => ?_
      simp only [List.append_assoc, List.mem_append, List.mem_singleton] at he
      rcases he with he | rfl | he
      · exact h e (by simp [he])
      · exact hvalid
      · exact h e (by simp [he])
    · have hvalid := valid_of_acceptsWrite haccepts
      intro e he
      simp only [List.mem_append, List.mem_cons] at he
      rcases he with he | rfl | he
      · exact h e (by simp [he])
      · exact hvalid
      · exact h e (by simp [he])
    · exact h
    · exact ih (by simpa using h)

lemma AllValid.update (h : AllValid docs) (upsert : Option Document) :
    AllValid (update keys docs matching f many upsert) := by
  simp only [Collection.update]
  split_ifs
  · exact AllValid.rewrite h
  · cases upsert with
    | none => exact h
    | some d => exact h.insert d

lemma AllValid.apply (h : AllValid docs) (op : Op) : AllValid (apply keys docs op) := by
  cases op with
  | insert d => exact h.insert d
  | update matching f many upsert => exact h.update upsert
  | replace matching id fields upsert => exact h.update upsert
  | delete matching many =>
    rw [Collection.apply, delete]
    split_ifs
    · exact fun d hd => h d (List.mem_filter.mp hd).1
    · exact fun d hd => h d (List.eraseP_sublist.subset hd)

lemma allValid_exec (ops : List Op) : AllValid (exec keys ops) := by
  induction ops using List.reverseRecOn with
  | nil => exact fun d hd => absurd hd List.not_mem_nil
  | append_singleton ops op ih =>
    rw [exec, List.foldl_append]
    exact AllValid.apply ih op

/-! ### An operation that keeps valid documents -/

/-- Every event is there under its `_id` after the writes of an update that keeps valid
documents. -/
lemma rewrite_keeps (hkeeps : UpdateKeeps matching f) (hvalid : AllValid docs) :
    ∀ d ∈ docs, Kept d (rewrite keys matching f many before docs) := by
  induction docs generalizing before with
  | nil => simp
  | cons d rest ih =>
    rw [AllValid, List.forall_mem_cons] at hvalid
    rw [List.forall_mem_cons, rewrite]
    split_ifs with hmatching haccepts hmany
    · have hid := id_of_acceptsWrite haccepts
      have hsame := hkeeps d hvalid.1 hmatching hid (valid_of_acceptsWrite haccepts)
      exact ⟨⟨f d, subset_rewrite _ _ (by simp), hid, hsame⟩, ih hvalid.2⟩
    · have hid := id_of_acceptsWrite haccepts
      have hsame := hkeeps d hvalid.1 hmatching hid (valid_of_acceptsWrite haccepts)
      exact ⟨⟨f d, by simp, hid, hsame⟩, fun e he => kept_of_mem (by simp [he])⟩
    · exact ⟨kept_of_mem (by simp), fun e he => kept_of_mem (by simp [he])⟩
    · exact ⟨kept_of_mem (subset_rewrite _ _ (by simp)), ih hvalid.2⟩

lemma update_keeps (hkeeps : UpdateKeeps matching f) (hvalid : AllValid docs)
    (upsert : Option Document) :
    ∀ d ∈ docs, Kept d (update keys docs matching f many upsert) := by
  simp only [update]
  split_ifs
  · exact rewrite_keeps hkeeps hvalid
  · intro d hd
    cases upsert with
    | none => exact kept_of_mem hd
    | some e => exact kept_of_mem ((insert_sublist docs e).subset hd)

lemma delete_keeps (hnone : ∀ d ∈ docs, matching d = false) :
    ∀ d ∈ docs, Kept d (delete docs matching many) := by
  intro d hd
  rw [delete]
  split_ifs
  · exact kept_of_mem (List.mem_filter.mpr ⟨hd, by simp [hnone d hd]⟩)
  · rw [List.eraseP_of_forall_not fun e he => by simp [hnone e he]]
    exact kept_of_mem hd

/-- An operation that keeps valid documents keeps every stored event. -/
lemma apply_keeps (hvalid : AllValid docs) (h : op.KeepsValid) :
    ∀ d ∈ docs, Kept d (apply keys docs op) := by
  cases op with
  | insert d => exact fun e he => kept_of_mem ((insert_sublist docs d).subset he)
  | update matching f many upsert => exact update_keeps h hvalid upsert
  | replace matching id fields upsert => exact update_keeps h hvalid upsert
  | delete matching many => exact delete_keeps fun d hd => h d (hvalid d hd)

/-! ### An operation that does not -/

lemma exec_insert (h : d.valid = true) : exec keys [.insert d] = [d] := by
  simp [exec, apply, insert, acceptsInsert, h]

/-- A valid event on its own is written over. -/
lemma update_loses {upsert : Option Document} (hmatching : matching d = true)
    (hid : (f d).id = d.id) (hvalid : (f d).valid = true) (hother : ¬ SameEvent d (f d)) :
    ¬ Kept d (update keys [d] matching f many upsert) := by
  have haccepts : acceptsWrite keys [] d (f d) = true := by simp [acceptsWrite, hid, hvalid]
  have hupdate : update keys [d] matching f many upsert = [f d] := by
    cases many <;> simp [update, rewrite, hmatching, haccepts]
  rw [hupdate]
  rintro ⟨d', hd', -, hsame⟩
  obtain rfl := List.mem_singleton.mp hd'
  exact hother hsame

lemma delete_loses (hmatching : matching d = true) : ¬ Kept d (delete [d] matching many) := by
  have hdelete : delete [d] matching many = [] := by
    cases many <;> simp [delete, hmatching]
  rw [hdelete]
  rintro ⟨d', hd', -⟩
  cases hd'

/-- An operation that does not keep valid documents loses one that is stored alone. -/
lemma exists_loses (h : ¬ op.KeepsValid) :
    ∃ d : Document, d.valid = true ∧ ¬ Kept d (apply keys [d] op) := by
  have hupdate : ∀ (matching : Document → Bool) (f : Document → Document) (many : Bool)
      (upsert : Option Document), ¬ UpdateKeeps matching f →
      ∃ d : Document, d.valid = true ∧ ¬ Kept d (update keys [d] matching f many upsert) := by
    intro matching f many upsert hnot
    simp only [UpdateKeeps, not_forall] at hnot
    obtain ⟨d, hd, hmatching, hid, hvalid, hother⟩ := hnot
    exact ⟨d, hd, update_loses hmatching hid hvalid hother⟩
  cases op with
  | insert d => exact absurd trivial h
  | update matching f many upsert => exact hupdate matching f many upsert h
  | replace matching id fields upsert =>
    exact hupdate matching (replacement id fields) false upsert h
  | delete matching many =>
    simp only [Op.KeepsValid, not_forall, Bool.not_eq_false] at h
    obtain ⟨d, hd, hmatching⟩ := h
    exact ⟨d, hd, delete_loses hmatching⟩

/-! ### Every run -/

lemma exec_take_succ {k : ℕ} (hop : ops[k]? = some op) :
    exec keys (ops.take (k + 1)) = apply keys (exec keys (ops.take k)) op := by
  rw [List.take_add_one, hop, exec, List.foldl_append]
  rfl

lemma appendOnly_of_keeps (h : ∀ op ∈ ops, op.KeepsValid) : AppendOnly keys ops := by
  intro i j hij d hd
  refine (uniqueIds_exec _).present ?_
  induction hij with
  | refl => exact kept_of_mem hd
  | @step j hij ih =>
    cases hop : ops[j]? with
    | none =>
      have hend : ops.length ≤ j := List.getElem?_eq_none_iff.mp hop
      rwa [List.take_of_length_le (Nat.le_succ_of_le hend), ← List.take_of_length_le hend]
    | some op =>
      rw [exec_take_succ hop]
      exact ih.trans (apply_keeps (allValid_exec _) (h op (List.mem_of_getElem? hop)))

/-- Of the sequences of inserts and of operations from a given set every one keeps every stored
event present and unchanged exactly when no operation of the set deletes a valid document, or
makes of a valid document another valid event under the same `_id`. The validator decides what is
valid; that versions are unique keeps nothing. -/
theorem append_only_iff (keys : KeyOrder) (allowed : Op → Prop) :
    (∀ ops : List Op, (∀ op ∈ ops, (∃ d, op = .insert d) ∨ allowed op) → AppendOnly keys ops) ↔
      ∀ op, allowed op → op.KeepsValid := by
  constructor
  · intro h op hallowed
    by_contra hnot
    obtain ⟨d, hvalid, hloses⟩ : ∃ d : Document, d.valid = true ∧ ¬ Kept d (apply keys [d] op) :=
      exists_loses hnot
    have hops : ∀ op' ∈ [Op.insert d, op], (∃ d, op' = .insert d) ∨ allowed op' := by
      intro op' hmem
      rcases List.mem_pair.mp hmem with rfl | rfl
      · exact .inl ⟨d, rfl⟩
      · exact .inr hallowed
    have hkept := h [.insert d, op] hops 1 2 (by decide) d
    rw [show [Op.insert d, op].take 1 = [.insert d] from rfl, exec_insert hvalid,
      exec_take_succ (k := 1) rfl, show [Op.insert d, op].take 1 = [.insert d] from rfl,
      exec_insert hvalid] at hkept
    exact hloses (hkept (List.mem_singleton_self d)).kept
  · intro h ops hops
    refine appendOnly_of_keeps fun op hop => ?_
    rcases hops op hop with ⟨d, rfl⟩ | hallowed
    · trivial
    · exact h op hallowed

/-! ### An event that is overwritten and deleted -/

/-- Keys are the same when they are equal. -/
def exact : KeyOrder where
  same b b' := b = b'
  refl := by simp

/-- An order and its total. -/
def placed (total : UInt8) : Document where
  id := ⟨.string, [101]⟩
  fields := [("event_id", ⟨.string, [101]⟩), ("stream_id", ⟨.string, [115]⟩),
    ("stream_version", ⟨.long, [0]⟩), ("global_position", ⟨.long, [0]⟩),
    ("event_type", ⟨.string, [79]⟩), ("schema_version", ⟨.int, [1]⟩),
    ("payload", ⟨.object, [total]⟩)]

/-- The payload of a stored event is replaced by another, and then the event is deleted. -/
theorem append_only_fails :
    let replace : Op := .replace (fun _ => true) none (placed 9).fields none
    exec exact [.insert (placed 1), replace] = [placed 9] ∧
      exec exact [.insert (placed 1), .delete (fun _ => true) false] = [] ∧
      ¬ AppendOnly exact [.insert (placed 1), replace] ∧
      ¬ AppendOnly exact [.insert (placed 1), .delete (fun _ => true) false] := by
  intro replace
  refine ⟨by decide, by decide, fun h => ?_, fun h => ?_⟩
  · obtain ⟨d', hd', hsame, -⟩ := h 1 2 (by decide) (placed 1) (by decide)
    obtain rfl : d' = placed 9 := by
      have hexec : exec exact [.insert (placed 1), replace] = [placed 9] := by decide
      exact List.mem_singleton.mp (hexec ▸ hd')
    exact absurd (hsame "payload" (by simp [eventFields])) (by decide)
  · obtain ⟨d', hd', -⟩ := h 1 2 (by decide) (placed 1) (by decide)
    have hexec : exec exact [.insert (placed 1), .delete (fun _ => true) false] = [] := by decide
    exact absurd (hexec ▸ hd') List.not_mem_nil

end EventSourcing.Mongo.Collection
