import EventSourcing.Text.Lowercase

/-!
# Errors that read like a conflict

The retry loops of the hot writes on PostgreSQL and MongoDB look for a version conflict in the
lower-cased text of the error that `append_with_stream_version` has returned, with all its causes.
That text has in it what the driver says and, for an insert that fails otherwise, the name of the
stream. So an error is taken for a conflict where either has one of the loop's phrases in it, and
the error is no conflict just where none has (`isConflict_iff`).
-/

namespace EventSourcing.Bench.ConflictErrors

open Text

/-- The unique indexes that an insert meets. -/
inductive UniqueIndex where
  /-- on `event_id` or `_id` -/
  | id
  /-- on `stream_id` and `stream_version` -/
  | streamVersion
  deriving DecidableEq

/-- Why an insert fails, with the texts of the driver's error and of its causes. -/
inductive InsertError where
  /-- code 23505 of PostgreSQL, a write error with code 11000 of MongoDB -/
  | duplicateKey (index : UniqueIndex) (chain : List String)
  | other (chain : List String)
  deriving DecidableEq

/-- Why `MongoClient::append_with_stream_version` fails. -/
inductive MongoError where
  /-- the update of `_global_seq` -/
  | counter (chain : List String)
  | serialise (chain : List String)
  | insert (e : InsertError)
  deriving DecidableEq

/-- The database has rejected the insert for a duplicate `(stream_id, stream_version)`. -/
def InsertError.IsDuplicateVersion : InsertError → Prop
  | duplicateKey index _ => index = .streamVersion
  | other _ => False

def MongoError.IsDuplicateVersion : MongoError → Prop
  | insert e => e.IsDuplicateVersion
  | _ => False

/-! ### `append_with_stream_version` -/

/-- `format!("{}-stream-{}", prefix, hot_idx)` -/
def streamName (streamPrefix : String) (hotIdx : UInt64) : String :=
  streamPrefix ++ "-stream-" ++ toString hotIdx

/-- An error as `anyhow` keeps it: the text of the outermost context first, then those of its
causes. -/
abbrev Chain := List String

/-- The error of an insert: a context with the name of the stream, unless a key was there before. -/
def insertChain (before after streamId : String) : InsertError → Chain
  | .duplicateKey _ _ => ["wrong expected version"]
  | .other chain => (before ++ "'" ++ streamId ++ "'" ++ after) :: chain

def postgresChain (streamId : String) : InsertError → Chain :=
  insertChain "explicit-version insert failed for " "" streamId

def mongoChain (collectionName : String) : MongoError → Chain
  | .counter chain => "global sequence counter update failed" :: chain
  | .serialise chain => "failed to serialise event to BSON" :: chain
  | .insert e => insertChain "explicit-version insert to " " failed" collectionName e

/-! ### `is_conflict` -/

/-- `format!("{:#}", err)` -/
def alternate : Chain → String
  | [] => ""
  | [text] => text
  | text :: rest => text ++ ": " ++ alternate rest

def postgresPhrases : List String := ["wrong expected version", "duplicate key", "23505"]

def mongoPhrases : List String := ["wrong expected version", "duplicate key", "e11000"]

section Loop

variable (lowercase : Lowercase) (phrases : List String)

/-- One of the phrases is in the lower-cased text. -/
def Mentions (text : String) : Prop :=
  ∃ phrase ∈ phrases, Contains (lowercase.toLowercase text) phrase

instance (text : String) : Decidable (Mentions lowercase phrases text) :=
  inferInstanceAs (Decidable (∃ phrase ∈ phrases, _))

/-- The test of the loop. -/
def isConflict (chain : Chain) : Bool := decide (Mentions lowercase phrases (alternate chain))

/-- The error of the insert is no duplicate id, and what the loop reads of any other failure does
not mention a phrase: the name of the stream and the texts of the driver. -/
def InsertError.Unmistaken (streamId : String) : InsertError → Prop
  | duplicateKey index _ => index = .streamVersion
  | other chain =>
    ¬ Mentions lowercase phrases streamId ∧ ∀ text ∈ chain, ¬ Mentions lowercase phrases text

def MongoError.Unmistaken (collectionName : String) : MongoError → Prop
  | counter chain => ∀ text ∈ chain, ¬ Mentions lowercase phrases text
  | serialise chain => ∀ text ∈ chain, ¬ Mentions lowercase phrases text
  | insert e => e.Unmistaken lowercase phrases collectionName

end Loop

/-! ### Searching an error -/

/-- A phrase that does not reach over the joints of an error. -/
def Phrase (phrase : String) : Prop :=
  Searchable phrase.toList ∧ ':' ∉ phrase.toList ∧ '\'' ∉ phrase.toList
    ∧ phrase.toList.head? ≠ some ' '

instance (phrase : String) : Decidable (Phrase phrase) :=
  inferInstanceAs (Decidable (_ ∧ _ ∧ _ ∧ _))

variable {lowercase : Lowercase} {phrases : List String} {phrase : String}

/-- A phrase is in an error where it is in one of its texts. -/
lemma spells_alternate_iff (h : Phrase phrase) (chain : Chain) :
    Spells (alternate chain) phrase ↔ ∃ text ∈ chain, Spells text phrase := by
  obtain ⟨⟨hne, -, -⟩, hcolon, -, hblank⟩ := h
  induction chain with
  | nil => simpa [alternate, Spells] using hne
  | cons text rest ih =>
    cases rest with
    | nil => simp [alternate]
    | cons text' rest =>
      have htext : (alternate (text :: text' :: rest)).toList
          = text.toList ++ ':' :: ' ' :: (alternate (text' :: rest)).toList := by
        simp [alternate]
      rw [Spells, htext, spells_append_cons_iff (by decide) hcolon,
        spells_cons_iff (by decide) hne hblank, ← Spells, ← Spells, ih]
      simp only [List.exists_mem_cons_iff]

/-- A name between quotes. -/
lemma spells_quoted_iff (h : Phrase phrase) (before name after : String) :
    Spells (before ++ "'" ++ name ++ "'" ++ after) phrase
      ↔ Spells before phrase ∨ Spells name phrase ∨ Spells after phrase := by
  have htext : (before ++ "'" ++ name ++ "'" ++ after).toList
      = before.toList ++ '\'' :: (name.toList ++ '\'' :: after.toList) := by
    simp
  rw [Spells, htext, spells_append_cons_iff (by decide) h.2.2.1,
    spells_append_cons_iff (by decide) h.2.2.1, ← Spells, ← Spells, ← Spells]

lemma mentions_iff (hphrases : ∀ phrase ∈ phrases, Phrase phrase) (text : String) :
    Mentions lowercase phrases text ↔ ∃ phrase ∈ phrases, Spells text phrase :=
  exists_congr fun phrase => and_congr_right fun h =>
    contains_toLowercase_iff lowercase (hphrases phrase h).1

/-- An error is taken for a conflict where one of its texts has a phrase in it. -/
lemma isConflict_iff_mentions (hphrases : ∀ phrase ∈ phrases, Phrase phrase) (chain : Chain) :
    isConflict lowercase phrases chain = true
      ↔ ∃ text ∈ chain, Mentions lowercase phrases text := by
  rw [isConflict, decide_eq_true_eq, mentions_iff hphrases]
  simp only [mentions_iff hphrases]
  constructor
  · rintro ⟨phrase, hphrase, hspells⟩
    obtain ⟨text, htext, hspells⟩ :=
      (spells_alternate_iff (hphrases phrase hphrase) chain).mp hspells
    exact ⟨text, htext, phrase, hphrase, hspells⟩
  · rintro ⟨text, htext, phrase, hphrase, hspells⟩
    exact ⟨phrase, hphrase,
      (spells_alternate_iff (hphrases phrase hphrase) chain).mpr ⟨text, htext, hspells⟩⟩

lemma postgresPhrases_phrase : ∀ phrase ∈ postgresPhrases, Phrase phrase := by decide

lemma mongoPhrases_phrase : ∀ phrase ∈ mongoPhrases, Phrase phrase := by decide

/-- The context of an insert mentions what the name of the stream does. -/
lemma mentions_context_iff (hphrases : ∀ phrase ∈ phrases, Phrase phrase) {before after : String}
    (hbefore : ∀ phrase ∈ phrases, ¬ Spells before phrase)
    (hafter : ∀ phrase ∈ phrases, ¬ Spells after phrase) (streamId : String) :
    Mentions lowercase phrases (before ++ "'" ++ streamId ++ "'" ++ after)
      ↔ Mentions lowercase phrases streamId := by
  rw [mentions_iff hphrases, mentions_iff hphrases]
  refine exists_congr fun phrase => and_congr_right fun hphrase => ?_
  rw [spells_quoted_iff (hphrases phrase hphrase), or_iff_right (hbefore phrase hphrase),
    or_iff_left (hafter phrase hphrase)]

/-- The error of an insert is classified right just where nothing in it is mistaken. -/
lemma insertChain_iff (hphrases : ∀ phrase ∈ phrases, Phrase phrase)
    (hconflict : "wrong expected version" ∈ phrases) {before after : String}
    (hbefore : ∀ phrase ∈ phrases, ¬ Spells before phrase)
    (hafter : ∀ phrase ∈ phrases, ¬ Spells after phrase) (streamId : String) (e : InsertError) :
    (isConflict lowercase phrases (insertChain before after streamId e) = true
        ↔ e.IsDuplicateVersion)
      ↔ e.Unmistaken lowercase phrases streamId := by
  rw [isConflict_iff_mentions hphrases]
  cases e with
  | duplicateKey index chain =>
    have hmentions : Mentions lowercase phrases "wrong expected version" :=
      (mentions_iff hphrases _).mpr ⟨_, hconflict, by decide⟩
    simp [insertChain, hmentions, InsertError.IsDuplicateVersion, InsertError.Unmistaken]
  | other chain =>
    have hcontext : Mentions lowercase phrases (before ++ "'" ++ streamId ++ "'" ++ after)
        ↔ Mentions lowercase phrases streamId :=
      mentions_context_iff hphrases hbefore hafter streamId
    simp [insertChain, hcontext, InsertError.IsDuplicateVersion, InsertError.Unmistaken]

/-- An error of another operation is classified right where the driver mentions no phrase. -/
lemma context_iff (hphrases : ∀ phrase ∈ phrases, Phrase phrase) {context : String}
    (hcontext : ∀ phrase ∈ phrases, ¬ Spells context phrase) (chain : Chain) :
    (isConflict lowercase phrases (context :: chain) = true ↔ False)
      ↔ ∀ text ∈ chain, ¬ Mentions lowercase phrases text := by
  have hnone : ¬ Mentions lowercase phrases context := by
    rw [mentions_iff hphrases]
    rintro ⟨phrase, hphrase, hspells⟩
    exact hcontext phrase hphrase hspells
  rw [isConflict_iff_mentions hphrases]
  simp [hnone]

/-- An error is taken for a version conflict exactly when the database has rejected the insert for
a duplicate `(stream_id, stream_version)`, if and only if it is that error, or no rejection of a
duplicate and no phrase of the loop is mentioned in the texts of the driver or, where the error
names it, in the name of the stream. -/
theorem isConflict_iff (lowercase : Lowercase) (streamPrefix : String) (hotIdx : UInt64) :
    (∀ e : InsertError,
      (isConflict lowercase postgresPhrases
            (postgresChain (streamName streamPrefix hotIdx) e) = true
          ↔ e.IsDuplicateVersion)
        ↔ e.Unmistaken lowercase postgresPhrases (streamName streamPrefix hotIdx))
    ∧ ∀ e : MongoError,
      (isConflict lowercase mongoPhrases (mongoChain (streamName streamPrefix hotIdx) e) = true
          ↔ e.IsDuplicateVersion)
        ↔ e.Unmistaken lowercase mongoPhrases (streamName streamPrefix hotIdx) := by
  constructor
  · exact insertChain_iff postgresPhrases_phrase (by decide) (by decide) (by decide) _
  · intro e
    cases e with
    | counter chain => exact context_iff mongoPhrases_phrase (by decide) chain
    | serialise chain => exact context_iff mongoPhrases_phrase (by decide) chain
    | insert e => exact insertChain_iff mongoPhrases_phrase (by decide) (by decide) (by decide) _ e

lemma mentions_streamName (lowercase : Lowercase) (streamPrefix : String) :
    Mentions lowercase postgresPhrases (streamName streamPrefix 23505) := by
  refine (mentions_iff postgresPhrases_phrase _).mpr ⟨"23505", by decide, ?_⟩
  have hdigits : ("23505".toList).map fold = "23505".toList.map some := by decide
  have hname : (streamName streamPrefix 23505).toList
      = (streamPrefix ++ "-stream-").toList ++ "23505".toList := String.toList_append
  rw [Spells, hname, List.map_append, hdigits]
  exact List.infix_append_right

/-- No connection could be had. -/
def poolTimedOut : InsertError := .other ["pool timed out while waiting for an open connection"]

/-- Any failure reads like a conflict on a stream whose number is the code of a conflict. -/
theorem isConflict_fails :
    ¬ ∀ (lowercase : Lowercase) (streamPrefix : String) (hotIdx : UInt64) (e : InsertError),
      isConflict lowercase postgresPhrases (postgresChain (streamName streamPrefix hotIdx) e) = true
        ↔ e.IsDuplicateVersion := by
  intro h
  refine (h default "bench" 23505 poolTimedOut).mp ?_
  rw [isConflict_iff_mentions postgresPhrases_phrase]
  refine ⟨_, List.mem_cons_self, ?_⟩
  exact (mentions_context_iff postgresPhrases_phrase (by decide) (by decide) _).mpr
    (mentions_streamName default "bench")

end EventSourcing.Bench.ConflictErrors
