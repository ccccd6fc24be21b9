import EventSourcing.KurrentDB.HotColdBench

/-!
# The hot and the cold view

What the server has scavenged of the hot stream, and when, is never seen: its reads give the end of
all that was written since the window was set. What the bench has read and counted follows from
what is on the streams in each of its phases (`hot_cold_view`).
-/

namespace EventSourcing.KurrentDB.HotCold

open Bench (Outcome collect)
open Concurrency HotTail Text

variable {config : Config} {json : Codec Events.BenchmarkEvent Json} {missing : Stream.Missing}
  {streamPrefix : String} {cold hot : View} {σ σ' : State}

/-! ### The invariant -/

/-- The projector of the cold stream: what it has been given, and what it has counted of that. -/
structure Replays (config : Config) (json : Codec Events.BenchmarkEvent Json) (cold : View)
    (σ : State) : Prop where
  first : cold.first ≤ σ.sub.next
  next : σ.sub.next ≤ max cold.first σ.cold.stream.events.length
  count : σ.count = (((σ.decoded json).take σ.sub.next).drop cold.first).countP (·.isSome)
  most : σ.count ≤ max config.seedEvents 1
  running : σ.sub.ended = false → σ.count = 0 ∨ σ.count < config.seedEvents
  all : σ.phase = .replayed → config.seedEvents ≤ σ.count

/-- A bench that has not failed, on the streams `cold` and `hot`. -/
structure Inv (config : Config) (json : Codec Events.BenchmarkEvent Json) (cold hot : View)
    (σ : State) : Prop where
  bounded : σ.phase.Bounded config
  seq : σ.seq = σ.phase.coldCount config
  coldMax : σ.cold.maxCount = none
  coldFirst : σ.cold.first = cold.first
  coldLabels : σ.cold.stream.events.map (label json)
    = cold.stream.events.map (label json) ++ seedLabels (σ.phase.coldCount config)
  hotLabels : σ.hot.stream.events.map (label json) = hot.stream.events.map (label json)
    ++ (seedLabels (σ.phase.hotCount config) ++ hotLabels config σ.phase.hotWrites)
  hotFirst : hot.first ≤ σ.hot.first
  untouched : σ.phase = .metadata → σ.hot.first = hot.first
  window : σ.phase ≠ .metadata → σ.hot.maxCount = some config.hotWindow ∧
    σ.hot.first ≤ max hot.first (σ.hot.stream.events.length - config.hotWindow)
  coldEvents : σ.phase.ColdRead → σ.coldEvents = σ.cold.reads
  hotEvents : σ.phase.SectionA → σ.hotEvents.map (readLabel json)
    = ((hot.stream.events.drop hot.first).map (label json)
        ++ seedLabels config.seedEvents).rtake config.hotWindow
  lastRead : σ.phase.ReadBack → σ.lastRead = σ.hot.reads
  replays : σ.phase = .replaying ∨ σ.phase = .replayed → Replays config json cold σ

lemma inv_start (hcold : cold.maxCount = none) : Inv config json cold hot (.start cold hot) where
  bounded := trivial
  seq := rfl
  coldMax := hcold
  coldFirst := rfl
  coldLabels := by simp [State.start, Phase.coldCount, seedLabels]
  hotLabels := by
    simp [State.start, Phase.hotCount, Phase.hotWrites, seedLabels, HotCold.hotLabels]
  hotFirst := le_refl _
  untouched _ := rfl
  window h := absurd rfl h
  coldEvents h := h.elim
  hotEvents h := h.elim
  lastRead h := h.elim
  replays h := by simp [State.start] at h

/-- The reads of the hot stream give the end of what has been written since. -/
lemma Inv.visible (h : Inv config json cold hot σ) (hphase : σ.phase ≠ .metadata) :
    σ.hot.visible = (σ.hot.stream.events.drop hot.first).rtake config.hotWindow :=
  View.visible_eq (h.window hphase).1 h.hotFirst (h.window hphase).2

/-- The revisions that may have been scavenged of the hot stream were on it from the start. -/
lemma Inv.labels_hotReads (h : Inv config json cold hot σ) (hphase : σ.phase ≠ .metadata)
    (hfirst : hot.first ≤ hot.stream.events.length) :
    σ.hot.reads.map (readLabel json) = ((hot.stream.events.drop hot.first).map (label json)
      ++ (seedLabels (σ.phase.hotCount config)
        ++ HotCold.hotLabels config σ.phase.hotWrites)).rtake config.hotWindow := by
  rw [map_readLabel_reads, h.visible hphase, Fold.map_rtake, List.map_drop, h.hotLabels,
    List.drop_append_of_le_length (by rwa [List.length_map]), List.map_drop]

lemma length_append (view : View) (eventType : String) (data : List Json) :
    (view.append eventType data).stream.events.length
      = view.stream.events.length + data.length := by
  rw [View.append, Stream.length_append, List.length_map]

/-- An append leaves the window where it was, or further on. -/
lemma Inv.window_append (h : Inv config json cold hot σ) (hphase : σ.phase ≠ .metadata)
    (eventType : String) (data : List Json) :
    (σ.hot.append eventType data).maxCount = some config.hotWindow ∧
      (σ.hot.append eventType data).first ≤ max hot.first
        ((σ.hot.append eventType data).stream.events.length - config.hotWindow) := by
  obtain ⟨hmax, hfirst⟩ := h.window hphase
  refine ⟨hmax, hfirst.trans (max_le_max_left _ ?_)⟩
  rw [length_append]
  exact Nat.sub_le_sub_right (Nat.le_add_right _ _) _

/-- The projector starts at the first event of the cold stream. -/
lemma Inv.spawned (h : Inv config json cold hot σ) {σ' : State} (hphase : σ'.phase = .replaying)
    (hsub : σ'.sub = ⟨σ.cold.start, false⟩) (hcount : σ'.count = 0) :
    Replays config json cold σ' := by
  have hstart : σ.cold.start = cold.first := by rw [View.start, h.coldMax, h.coldFirst]
  refine ⟨by rw [hsub, hstart], ?_, ?_, by omega, fun _ => .inl hcount, by simp [hphase]⟩
  · rw [hsub, hstart]
    exact le_max_left _ _
  · rw [hcount, hsub, hstart, List.drop_of_length_le (List.length_take_le _ _)]
    rfl

/-- A request that writes nothing: the streams stay as they are, and the phases agree on what is
on them. -/
lemma Inv.unwritten (h : Inv config json cold hot σ)
    (hstreams : σ'.cold = σ.cold ∧ σ'.hot = σ.hot ∧ σ'.seq = σ.seq)
    (hphases : σ.phase ≠ .metadata ∧ σ'.phase ≠ .metadata ∧ σ'.phase.Bounded config)
    (hcounts : σ'.phase.coldCount config = σ.phase.coldCount config ∧
      σ'.phase.hotCount config = σ.phase.hotCount config ∧ σ'.phase.hotWrites = σ.phase.hotWrites)
    (hcoldEvents : σ'.phase.ColdRead → σ'.coldEvents = σ.cold.reads)
    (hhotEvents : σ'.phase.SectionA → σ'.hotEvents.map (readLabel json)
      = ((hot.stream.events.drop hot.first).map (label json)
          ++ seedLabels config.seedEvents).rtake config.hotWindow)
    (hlastRead : σ'.phase.ReadBack → σ'.lastRead = σ.hot.reads)
    (hreplays : σ'.phase = .replaying ∨ σ'.phase = .replayed → Replays config json cold σ') :
    Inv config json cold hot σ' := by
  obtain ⟨hcold, hhot, hseq⟩ := hstreams
  obtain ⟨hphase, hphase', hbounded⟩ := hphases
  obtain ⟨hcoldCount, hhotCount, hwrites⟩ := hcounts
  refine ⟨hbounded, ?_, ?_, ?_, ?_, ?_, ?_, fun hmetadata => absurd hmetadata hphase', ?_, ?_,
    hhotEvents, ?_, hreplays⟩
  · rw [hseq, hcoldCount, h.seq]
  · rw [hcold, h.coldMax]
  · rw [hcold, h.coldFirst]
  · rw [hcold, hcoldCount, h.coldLabels]
  · rw [hhot, hhotCount, hwrites, h.hotLabels]
  · rw [hhot]
    exact h.hotFirst
  · rw [hhot]
    exact fun _ => h.window hphase
  · rw [hcold]
    exact hcoldEvents
  · rw [hhot]
    exact hlastRead

lemma Inv.advance (h : Inv config json cold hot σ)
    (hfirst : hot.first ≤ hot.stream.events.length) (ha : Advance config json σ σ') :
    Inv config json cold hot σ' := by
  have hseq := h.seq
  have hcoldLabels := h.coldLabels
  have hhotLabels := h.hotLabels
  have hbounded := h.bounded
  cases ha with
  | metadata hphase =>
    rw [hphase] at hseq hcoldLabels hhotLabels
    refine ⟨Nat.zero_le _, hseq, h.coldMax, h.coldFirst, hcoldLabels, hhotLabels, h.hotFirst,
      by simp, ?_, False.elim, False.elim, False.elim, by simp⟩
    exact fun _ => ⟨rfl, (h.untouched hphase).le.trans (le_max_left _ _)⟩
  | @cold offset now data hphase hlt hdata =>
    rw [hphase] at hseq hcoldLabels hhotLabels
    refine ⟨hlt, congrArg (· + _) hseq, h.coldMax, h.coldFirst, ?_, hhotLabels, h.hotFirst,
      by simp, fun _ => h.window (by simp [hphase]), False.elim, False.elim, False.elim, by simp⟩
    have hoffset : σ.seq = offset := hseq
    have hadd := seedLabels_add offset (config.batchLen offset)
    rw [map_label_append, hcoldLabels, batch_labels hdata, hoffset, List.append_assoc]
    exact congrArg _ hadd.symm
  | @seeded offset hphase hge =>
    rw [hphase] at hbounded
    obtain rfl : offset = config.seedEvents := le_antisymm hbounded hge
    exact h.unwritten ⟨rfl, rfl, rfl⟩ ⟨by simp [hphase], by simp, trivial⟩
      (by rw [hphase]; exact ⟨rfl, rfl, rfl⟩) False.elim False.elim False.elim (by simp)
  | @hot offset now data hphase hdata =>
    rw [hphase] at hseq hcoldLabels hhotLabels hbounded
    refine ⟨?_, hseq, h.coldMax, h.coldFirst, hcoldLabels, ?_, h.hotFirst, by simp,
      fun _ => h.window_append (by simp [hphase]) _ _, False.elim, False.elim, False.elim, by simp⟩
    · have hle : config.batchLen offset ≤ config.seedEvents - offset := Nat.min_le_right _ _
      have hlt : offset < config.seedEvents := hbounded
      show offset + config.batchLen offset ≤ config.seedEvents
      omega
    · have hoffset : σ.seq - config.batchLen offset = offset := by
        rw [hseq]
        exact Nat.add_sub_cancel ..
      rw [map_label_append, hhotLabels, batch_labels hdata, hoffset]
      simp [Phase.hotCount, Phase.hotWrites, HotCold.hotLabels, seedLabels_add]
  | readCold hphase =>
    exact h.unwritten ⟨rfl, rfl, rfl⟩ ⟨by simp [hphase], by simp, trivial⟩
      (by rw [hphase]; exact ⟨rfl, rfl, rfl⟩) (fun _ => rfl) False.elim False.elim (by simp)
  | readHot hphase =>
    have hread := h.labels_hotReads (by simp [hphase]) hfirst
    rw [hphase] at hread
    refine h.unwritten ⟨rfl, rfl, rfl⟩ ⟨by simp [hphase], by simp, trivial⟩
      (by rw [hphase]; exact ⟨rfl, rfl, rfl⟩) ?_ ?_ False.elim (by simp)
    · exact fun _ => h.coldEvents (by simp [hphase, Phase.ColdRead])
    · intro _
      rw [hread]
      simp [Phase.hotCount, Phase.hotWrites, HotCold.hotLabels]
  | @reread left hphase =>
    exact h.unwritten ⟨rfl, rfl, rfl⟩ ⟨by simp [hphase], by simp, trivial⟩
      (by rw [hphase]; exact ⟨rfl, rfl, rfl⟩)
      (fun _ => h.coldEvents (by simp [hphase, Phase.ColdRead]))
      (fun _ => h.hotEvents (by simp [hphase, Phase.SectionA])) False.elim (by simp)
  | lastReread hphase =>
    exact h.unwritten ⟨rfl, rfl, rfl⟩ ⟨by simp [hphase], by simp, Nat.zero_lt_succ _⟩
      (by rw [hphase]; exact ⟨rfl, rfl, rfl⟩)
      (fun _ => h.coldEvents (by simp [hphase, Phase.ColdRead]))
      (fun _ => h.hotEvents (by simp [hphase, Phase.SectionA])) (fun _ => rfl) (by simp)
  | @write i now d hphase hdata =>
    rw [hphase] at hseq hcoldLabels hhotLabels hbounded
    refine ⟨hbounded, hseq, h.coldMax, h.coldFirst, hcoldLabels, ?_, h.hotFirst, by simp,
      fun _ => h.window_append (by simp [hphase]) _ _,
      fun _ => h.coldEvents (by simp [hphase, Phase.ColdRead]),
      fun _ => h.hotEvents (by simp [hphase, Phase.SectionA]), False.elim, by simp⟩
    rw [map_label_append, hhotLabels, List.append_assoc, List.append_assoc]
    simp only [Phase.hotCount, Phase.hotWrites, hotLabels_succ, List.map_cons, List.map_nil,
      json.decode_encode hdata, Option.map_some]
    rfl
  | @readBack i hphase hlt =>
    exact h.unwritten ⟨rfl, rfl, rfl⟩ ⟨by simp [hphase], by simp, hlt⟩
      (by rw [hphase]; exact ⟨rfl, rfl, rfl⟩)
      (fun _ => h.coldEvents (by simp [hphase, Phase.ColdRead]))
      (fun _ => h.hotEvents (by simp [hphase, Phase.SectionA])) (fun _ => rfl) (by simp)
  | @spawn i hphase hge =>
    rw [hphase] at hbounded
    obtain rfl : i = 99 := by
      have hlt : i < 100 := hbounded
      omega
    exact h.unwritten ⟨rfl, rfl, rfl⟩ ⟨by simp [hphase], by simp, trivial⟩
      (by rw [hphase]; exact ⟨rfl, rfl, rfl⟩)
      (fun _ => h.coldEvents (by simp [hphase, Phase.ColdRead]))
      (fun _ => h.hotEvents (by simp [hphase, Phase.SectionA])) (fun _ => rfl)
      (fun _ => h.spawned rfl rfl rfl)
  | replayed hphase hcount =>
    obtain ⟨hstart, hnext, hcounted, hmost, hrunning, -⟩ := h.replays (.inl hphase)
    exact h.unwritten ⟨rfl, rfl, rfl⟩ ⟨by simp [hphase], by simp, trivial⟩
      (by rw [hphase]; exact ⟨rfl, rfl, rfl⟩)
      (fun _ => h.coldEvents (by simp [hphase, Phase.ColdRead]))
      (fun _ => h.hotEvents (by simp [hphase, Phase.SectionA]))
      (fun _ => h.lastRead (by simp [hphase, Phase.ReadBack]))
      (fun _ => ⟨hstart, hnext, hcounted, hmost, hrunning, fun _ => hcount⟩)

/-! ### Scavenging and deliveries -/

lemma start_scavenged {n revision : ℕ} (view : View) (hmax : view.maxCount = some n)
    (hle : view.first ≤ revision) (hstart : revision ≤ view.start) :
    ({ view with first := revision } : View).start = view.start := by
  rw [View.start, hmax] at hstart
  rw [View.start, View.start, hmax]
  simp only at hstart ⊢
  omega

lemma Inv.scavenge (h : Inv config json cold hot σ) {revision : ℕ} (hphase : σ.phase ≠ .metadata)
    (hle : σ.hot.first ≤ revision) (hstart : revision ≤ σ.hot.start) :
    Inv config json cold hot { σ with hot := { σ.hot with first := revision } } := by
  obtain ⟨hmax, hfirst⟩ := h.window hphase
  have hstart' := start_scavenged σ.hot hmax hle hstart
  refine ⟨h.bounded, h.seq, h.coldMax, h.coldFirst, h.coldLabels, h.hotLabels,
    h.hotFirst.trans hle, fun hmetadata => absurd hmetadata hphase, ?_, h.coldEvents, h.hotEvents,
    ?_, ?_⟩
  · rw [View.start, hmax] at hstart
    exact fun _ => ⟨hmax, hstart.trans (max_le hfirst (le_max_right _ _))⟩
  · intro hreadBack
    rw [View.reads, View.visible, hstart']
    exact h.lastRead hreadBack
  · intro hreplay
    obtain ⟨hfirst, hnext, hcount, hmost, hrunning, hall⟩ := h.replays hreplay
    exact ⟨hfirst, hnext, hcount, hmost, hrunning, hall⟩

/-- What the projector makes of the next event. -/
def counted (config : Config) (σ : State) (event : Decoded) (sub : Subscription) : State :=
  { σ with
    sub := if event.isSome then { sub with ended := config.seedEvents ≤ σ.count + 1 } else sub
    count := if event.isSome then σ.count + 1 else σ.count }

lemma next_deliver (hphase : σ.phase = .replaying) :
    σ.next config json missing streamPrefix .deliver
      = (σ.sub.deliver (σ.decoded json)).map fun (event, sub) => counted config σ event sub := by
  simp only [State.next, if_pos hphase, counted]
  congr 1
  funext ⟨event, sub⟩
  split_ifs <;> rfl

/-- Only a subscription that has not ended delivers. -/
lemma ended_deliver {stream : List Decoded} {sub sub' : Subscription} {event : Decoded}
    (hs : sub.deliver stream = some (event, sub')) : sub.ended = false ∧ sub'.ended = false := by
  simp only [Subscription.deliver] at hs
  split_ifs at hs with hended
  obtain ⟨e, -, heq⟩ := Option.map_eq_some_iff.mp hs
  cases heq
  exact ⟨by simpa using hended, by simpa using hended⟩

lemma Replays.deliver {event : Decoded} {sub : Subscription} (h : Replays config json cold σ)
    (hphase : σ.phase = .replaying) (hs : σ.sub.deliver (σ.decoded json) = some (event, sub)) :
    Replays config json cold (counted config σ event sub) := by
  obtain ⟨hget, hnext, hle, htake⟩ := Subscription.deliver_eq_some hs
  have hlength : (σ.decoded json).length = σ.cold.stream.events.length := List.length_map _
  have hended := ended_deliver hs
  have hgiven : cold.first ≤ ((σ.decoded json).take σ.sub.next).length := by
    rw [List.length_take_of_le (by omega)]
    exact h.first
  have hcount : ((((σ.decoded json).take sub.next).drop cold.first).countP (·.isSome))
      = σ.count + if event.isSome = true then 1 else 0 := by
    rw [htake, List.drop_append_of_le_length hgiven, List.countP_append, ← h.count,
      List.countP_singleton]
  have hfirst := h.first
  have hrunning := h.running hended.1
  rw [counted]
  split_ifs with hsome
  · rw [if_pos hsome] at hcount
    refine ⟨by simp only [hnext]; omega, by simp only [hnext]; omega, hcount.symm, ?_, ?_,
      by simp [hphase]⟩
    · simp only
      omega
    · intro hrest
      have hlt : ¬ config.seedEvents ≤ σ.count + 1 := of_decide_eq_false hrest
      exact .inr (not_le.mp hlt)
  · rw [if_neg hsome, Nat.add_zero] at hcount
    exact ⟨by simp only [hnext]; omega, by simp only [hnext]; omega, hcount.symm, h.most,
      fun _ => hrunning, by simp [hphase]⟩

/-- The projector leaves the streams and the main task as they are. -/
lemma Inv.projector (h : Inv config json cold hot σ) (hphase : σ.phase = .replaying)
    {sub : Subscription} {count : ℕ}
    (hreplays : Replays config json cold { σ with sub := sub, count := count }) :
    Inv config json cold hot { σ with sub := sub, count := count } :=
  h.unwritten ⟨rfl, rfl, rfl⟩ ⟨by simp [hphase], by simp [hphase], h.bounded⟩ ⟨rfl, rfl, rfl⟩
    h.coldEvents h.hotEvents h.lastRead fun _ => hreplays

lemma inv_next {b : Step} (h : Inv config json cold hot σ)
    (hfirst : hot.first ≤ hot.stream.events.length)
    (hs : σ.next config json missing streamPrefix b = some σ') :
    σ'.phase = .failed ∨ Inv config json cold hot σ' := by
  cases b with
  | request now outcome =>
    exact (request_cases hs).imp_right fun hadvance => h.advance hfirst hadvance
  | scavenge revision =>
    simp only [State.next] at hs
    split_ifs at hs with hscavenge
    obtain rfl := Option.some.inj hs
    exact .inr (h.scavenge hscavenge.1 hscavenge.2.1 hscavenge.2.2)
  | deliver =>
    by_cases hphase : σ.phase = .replaying
    · rw [next_deliver hphase] at hs
      obtain ⟨⟨event, sub⟩, hdeliver, rfl⟩ := Option.map_eq_some_iff.mp hs
      exact .inr (h.projector hphase ((h.replays (.inl hphase)).deliver hphase hdeliver))
    · simp [State.next, hphase] at hs
  | fail =>
    simp only [State.next] at hs
    split_ifs at hs with hphase
    obtain rfl := Option.some.inj hs
    obtain ⟨hstart, hnext, hcount, hmost, -, hall⟩ := h.replays (.inl hphase)
    refine .inr (h.projector hphase ⟨hstart, hnext, hcount, hmost, ?_, hall⟩)
    intro hrunning
    cases hrunning

lemma failed_next {b : Step} (hfailed : σ.phase = .failed)
    (hs : σ.next config json missing streamPrefix b = some σ') : σ'.phase = .failed := by
  cases b with
  | request now outcome => simp [State.next, State.request, hfailed] at hs
  | scavenge revision =>
    simp only [State.next] at hs
    split_ifs at hs
    obtain rfl := Option.some.inj hs
    exact hfailed
  | deliver => simp [State.next, hfailed] at hs
  | fail => simp [State.next, hfailed] at hs

lemma inv_of_reachable (hcold : cold.maxCount = none)
    (hfirst : hot.first ≤ hot.stream.events.length)
    (h : (system config json missing streamPrefix cold hot).Reachable σ) :
    σ.phase = .failed ∨ Inv config json cold hot σ := by
  refine System.ReachBy.invariant
    (P := fun σ => σ.phase = .failed ∨ Inv config json cold hot σ) ?_ ?_ h
  · rintro σ rfl
    exact .inr (inv_start hcold)
  · intro σ b σ' _ hinv _ hs
    rcases hinv with hfailed | hinv
    · exact .inl (failed_next hfailed hs)
    · exact inv_next hinv hfirst hs

/-! ### The replay of the cold stream -/

/-- The seed can be read from the cold stream. -/
lemma Inv.seed_le_countP (h : Inv config json cold hot σ) (hphase : σ.phase = .replaying)
    (hfirst : cold.first ≤ cold.stream.events.length) :
    config.seedEvents ≤ ((σ.decoded json).drop cold.first).countP (·.isSome) := by
  have hlabels := h.coldLabels
  rw [hphase] at hlabels
  have hcount : ((σ.decoded json).drop cold.first).countP (·.isSome)
      = ((σ.cold.stream.events.map (label json)).drop cold.first).countP (·.2.isSome) := by
    rw [State.decoded, ← List.map_drop, ← List.map_drop, List.countP_map, List.countP_map]
    refine List.countP_congr fun e _ => ?_
    simp [label]
  have hseed : (seedLabels config.seedEvents).countP (·.2.isSome) = config.seedEvents := by
    rw [List.countP_eq_length.mpr, length_seedLabels]
    simp [seedLabels]
  rw [hcount, hlabels, List.drop_append_of_le_length (by rwa [List.length_map]),
    List.countP_append]
  exact hseed.ge.trans (Nat.le_add_left _ _)

/-- The next delivery, unless everything has been delivered. -/
lemma Inv.delivers (h : Inv config json cold hot σ) (hphase : σ.phase = .replaying)
    (hfirst : cold.first ≤ cold.stream.events.length) (hended : σ.sub.ended = false)
    (hcount : σ.count < config.seedEvents) :
    ∃ event sub, σ.sub.deliver (σ.decoded json) = some (event, sub) ∧
      σ.sub.next < σ.cold.stream.events.length := by
  have hreplays := h.replays (.inl hphase)
  have hlength : (σ.decoded json).length = σ.cold.stream.events.length := List.length_map _
  by_cases hlt : σ.sub.next < σ.cold.stream.events.length
  · have hget : σ.sub.next < (σ.decoded json).length := hlength ▸ hlt
    refine ⟨(σ.decoded json)[σ.sub.next], ⟨σ.sub.next + 1, false⟩, ?_, hlt⟩
    rw [Subscription.deliver, hended, List.getElem?_eq_getElem hget]
    rfl
  · have hall := hreplays.count
    rw [List.take_of_length_le (by omega)] at hall
    have hseed := h.seed_le_countP hphase hfirst
    omega

/-- Unless the subscription fails, the projector gets to the end of the seed. -/
lemma replay_ends (hfirst : cold.first ≤ cold.stream.events.length) (n : ℕ)
    (h : Inv config json cold hot σ) (hphase : σ.phase = .replaying)
    (hlive : config.seedEvents ≤ σ.count ∨ σ.sub.ended = false)
    (hn : σ.cold.stream.events.length - σ.sub.next ≤ n) :
    ∃ σ', (system config json missing streamPrefix cold hot).Later σ σ' ∧
      σ'.phase = .replayed ∧ σ'.cold = σ.cold ∧ σ'.hot = σ.hot := by
  induction n generalizing σ with
  | zero =>
    have hcount : config.seedEvents ≤ σ.count := by
      by_contra hlt
      obtain ⟨-, -, -, hbehind⟩ :=
        h.delivers hphase hfirst (hlive.resolve_left hlt) (not_le.mp hlt)
      omega
    have hs : (system config json missing streamPrefix cold hot).next σ
        (.request (fun _ => .epoch) .done) = some { σ with phase := .replayed } := by
      simp [system, State.next, State.request, hphase, hcount]
    exact ⟨_, .single ⟨_, hs⟩, rfl, rfl, rfl⟩
  | succ n ih =>
    by_cases hcount : config.seedEvents ≤ σ.count
    · have hs : (system config json missing streamPrefix cold hot).next σ
          (.request (fun _ => .epoch) .done) = some { σ with phase := .replayed } := by
        simp [system, State.next, State.request, hphase, hcount]
      exact ⟨_, .single ⟨_, hs⟩, rfl, rfl, rfl⟩
    · obtain ⟨event, sub, hdeliver, hbehind⟩ :=
        h.delivers hphase hfirst (hlive.resolve_left hcount) (not_le.mp hcount)
      have hs : (system config json missing streamPrefix cold hot).next σ .deliver
          = some (counted config σ event sub) := by
        show σ.next config json missing streamPrefix .deliver = _
        rw [next_deliver hphase, hdeliver]
        rfl
      obtain ⟨-, hnext, -, -⟩ := Subscription.deliver_eq_some hdeliver
      have hinv := h.projector hphase ((h.replays (.inl hphase)).deliver hphase hdeliver)
      have hended := (ended_deliver hdeliver).2
      have hrest : config.seedEvents ≤ (counted config σ event sub).count ∨
          (counted config σ event sub).sub.ended = false := by
        simp only [counted]
        split_ifs
        · exact (Nat.lt_or_ge (σ.count + 1) config.seedEvents).symm.imp id fun hlt =>
            decide_eq_false (not_le.mpr hlt)
        · exact .inr hended
      have hplace : (counted config σ event sub).sub.next = σ.sub.next + 1 := by
        simp only [counted]
        split_ifs <;> exact hnext
      obtain ⟨σ', hlater, hreplayed, hcold, hhot⟩ := ih hinv hphase hrest (by
        show σ.cold.stream.events.length - (counted config σ event sub).sub.next ≤ n
        omega)
      exact ⟨σ', .head ⟨_, hs⟩ hlater, hreplayed, hcold, hhot⟩

/-! ### What the bench reads -/

/-- The labels of what the bench finds on the hot stream. -/
abbrev oldLabels (json : Codec Events.BenchmarkEvent Json) (view : View) : List Label :=
  (view.stream.events.drop view.first).map (label json)

/-- What section A has read of the streams. -/
structure SectionA (config : Config) (json : Codec Events.BenchmarkEvent Json) (cold hot : View)
    (σ : State) : Prop where
  coldRead : σ.coldEvents.map (readLabel json)
    = oldLabels json cold ++ seedLabels config.seedEvents
  hotRead : σ.hotEvents.map (readLabel json)
    = (oldLabels json hot ++ seedLabels config.seedEvents).rtake config.hotWindow
  /-- a window that the seed fills, or streams that are new -/
  same : config.hotWindow ≤ config.seedEvents ∨ oldLabels json cold = oldLabels json hot →
    σ.hotEvents.map (readLabel json)
      = (σ.coldEvents.map (readLabel json)).rtake config.hotWindow
  /-- the report's "events scavenged" -/
  scavenged : config.hotWindow ≤ config.seedEvents →
    (σ.coldEvents.length - σ.hotEvents.length = config.seedEvents - config.hotWindow
      ↔ oldLabels json cold = [])

lemma Inv.sectionA (h : Inv config json cold hot σ) (hphase : σ.phase.SectionA)
    (hfirst : cold.first ≤ cold.stream.events.length) : SectionA config json cold hot σ := by
  have hread : σ.phase.ColdRead := by
    revert hphase
    cases σ.phase <;> simp [Phase.SectionA, Phase.ColdRead]
  have hcount : σ.phase.coldCount config = config.seedEvents := by
    revert hphase
    cases σ.phase <;> simp [Phase.SectionA, Phase.coldCount]
  have hcold : σ.coldEvents.map (readLabel json)
      = oldLabels json cold ++ seedLabels config.seedEvents := by
    rw [h.coldEvents hread, map_readLabel_reads, View.visible, View.start, h.coldMax]
    simp only
    rw [h.coldFirst, List.map_drop, h.coldLabels, hcount,
      List.drop_append_of_le_length (by rwa [List.length_map]), ← List.map_drop]
  have hhot := h.hotEvents hphase
  refine ⟨hcold, hhot, ?_, ?_⟩
  · intro hsame
    rw [hcold, hhot]
    rcases hsame with hle | heq
    · rw [Fold.rtake_append_of_le (by rwa [length_seedLabels]),
        Fold.rtake_append_of_le (by rwa [length_seedLabels])]
    · rw [heq]
  · intro hle
    have hcoldLength := congrArg List.length hcold
    have hhotLength := congrArg List.length hhot
    rw [Fold.rtake_append_of_le (by rwa [length_seedLabels]), Fold.length_rtake,
      length_seedLabels, List.length_map, Nat.min_eq_left hle] at hhotLength
    rw [List.length_append, length_seedLabels, List.length_map] at hcoldLength
    rw [← List.length_eq_zero_iff, hcoldLength, hhotLength]
    omega

/-- A write of section B is the last event of the read that follows it, whatever the window. -/
lemma Inv.readBack (h : Inv config json cold hot σ) (hphase : σ.phase.ReadBack)
    (hfirst : hot.first ≤ hot.stream.events.length) :
    ∃ n, σ.phase.hotWrites = n + 1 ∧
      σ.lastRead.map (readLabel json) = (oldLabels json hot ++ (seedLabels config.seedEvents
        ++ HotCold.hotLabels config (n + 1))).rtake config.hotWindow ∧
      (σ.lastRead.getLast?).map (readLabel json)
        = some ("HotWriteEvent", some (.ofNat (config.seedEvents + n))) := by
  have hmetadata : σ.phase ≠ .metadata := by
    rintro heq
    rw [heq] at hphase
    exact hphase
  have hcount : σ.phase.hotCount config = config.seedEvents := by
    revert hphase
    cases σ.phase <;> simp [Phase.ReadBack, Phase.hotCount]
  obtain ⟨n, hn⟩ : ∃ n, σ.phase.hotWrites = n + 1 := by
    revert hphase
    cases σ.phase with
    | writing i => exact fun hi => ⟨i - 1, (Nat.succ_pred_eq_of_pos hi).symm⟩
    | replaying => exact fun _ => ⟨99, rfl⟩
    | replayed => exact fun _ => ⟨99, rfl⟩
    | _ => exact False.elim
  have hread := h.labels_hotReads hmetadata hfirst
  rw [hcount, hn, ← h.lastRead hphase] at hread
  refine ⟨n, hn, hread, ?_⟩
  obtain ⟨w, hw⟩ := Nat.exists_eq_succ_of_ne_zero config.positive.ne'
  rw [← List.getLast?_map, hread, hotLabels_succ, ← List.append_assoc, ← List.append_assoc, hw,
    Nat.succ_eq_add_one, List.rtake_concat_succ, List.getLast?_concat]

lemma Inv.length_cold (h : Inv config json cold hot σ) : σ.cold.stream.events.length
    = cold.stream.events.length + σ.phase.coldCount config := by
  have hlength := congrArg List.length h.coldLabels
  rwa [List.length_append, List.length_map, List.length_map, length_seedLabels] at hlength

/-- A replay that has ended has counted the seed; on a stream without older events it has been
given all of it. -/
lemma Inv.replayed (h : Inv config json cold hot σ) (hphase : σ.phase = .replayed)
    (hfirst : cold.first ≤ cold.stream.events.length) :
    config.seedEvents ≤ σ.count ∧
      (oldLabels json cold = [] → σ.sub.next = σ.cold.stream.events.length) := by
  obtain ⟨hstart, hnext, hcount, -, -, hall⟩ := h.replays (.inr hphase)
  have hseed := hall hphase
  refine ⟨hseed, fun hold => ?_⟩
  have hlength := h.length_cold
  rw [hphase] at hlength
  have hgiven : σ.count ≤ σ.sub.next - cold.first := by
    rw [hcount]
    refine List.countP_le_length.trans ?_
    rw [List.length_drop]
    exact Nat.sub_le_sub_right (List.length_take_le _ _) _
  have hnone := congrArg List.length hold
  rw [List.length_map, List.length_drop, List.length_nil] at hnone
  have hcold : σ.cold.stream.events.length = cold.stream.events.length + config.seedEvents :=
    hlength
  omega

/-! ### Batches of no events -/

/-- A bench whose batches are empty writes no event and never reads. -/
lemma stuck_of_reachable (hbatch : config.seedBatch = 0) (hseed : 0 < config.seedEvents)
    (h : (system config json missing streamPrefix cold hot).Reachable σ) :
    σ.phase = .metadata ∨ σ.phase = .seeding 0 ∨ σ.phase = .seedingHot 0 ∨ σ.phase = .failed := by
  refine System.ReachBy.invariant (P := fun σ => σ.phase = .metadata ∨ σ.phase = .seeding 0 ∨
    σ.phase = .seedingHot 0 ∨ σ.phase = .failed) ?_ ?_ h
  · rintro σ rfl
    exact .inl rfl
  · intro σ b σ' _ hstuck _ hs
    cases b with
    | request now outcome =>
      rcases request_cases hs with hfailed | hadvance
      · exact .inr (.inr (.inr hfailed))
      · cases hadvance with
        | metadata hphase => exact .inr (.inl rfl)
        | cold hphase hlt hdata =>
          rw [hphase] at hstuck
          obtain rfl := by simpa using hstuck
          exact .inr (.inr (.inl rfl))
        | seeded hphase hge =>
          rw [hphase] at hstuck
          obtain rfl := by simpa using hstuck
          omega
        | hot hphase hdata =>
          rw [hphase] at hstuck
          obtain rfl := by simpa using hstuck
          simp [Config.batchLen, hbatch]
        | readCold hphase => simp [hphase] at hstuck
        | readHot hphase => simp [hphase] at hstuck
        | reread hphase => simp [hphase] at hstuck
        | lastReread hphase => simp [hphase] at hstuck
        | write hphase hdata => simp [hphase] at hstuck
        | readBack hphase hlt => simp [hphase] at hstuck
        | spawn hphase hge => simp [hphase] at hstuck
        | replayed hphase hcount => simp [hphase] at hstuck
    | scavenge revision =>
      simp only [system, State.next] at hs
      split_ifs at hs
      obtain rfl := Option.some.inj hs
      exact hstuck
    | deliver =>
      by_cases hphase : σ.phase = .replaying
      · simp [hphase] at hstuck
      · simp [system, State.next, hphase] at hs
    | fail =>
      by_cases hphase : σ.phase = .replaying
      · simp [hphase] at hstuck
      · simp [system, State.next, hphase] at hs

/-- The bench on streams as it finds them. Whenever it has not failed, the reads of the hot stream
give the end of all that was on it when the window was set or has been written since, whatever has
been scavenged. Section A reads the seed after the older events of the cold stream and the end of
the seed from the hot one, and what it reports as scavenged is the seed without the window if and
only if the cold stream was empty. In section B every write is the last event of the next read. The
replay of the cold stream can get to its end as long as the subscription has not failed. With empty
batches nothing is ever read. -/
theorem hot_cold_view (config : Config) (json : Codec Events.BenchmarkEvent Json)
    (missing : Stream.Missing) (streamPrefix : String) (cold hot : View)
    (hcold : cold.maxCount = none) (hcoldFirst : cold.first ≤ cold.stream.events.length)
    (hhotFirst : hot.first ≤ hot.stream.events.length) :
    ∀ σ, (system config json missing streamPrefix cold hot).Reachable σ → σ.phase ≠ .failed →
      (σ.phase ≠ .metadata →
        σ.hot.visible = (σ.hot.stream.events.drop hot.first).rtake config.hotWindow) ∧
      (σ.phase.SectionA → SectionA config json cold hot σ) ∧
      (σ.phase.ReadBack → ∃ n, σ.phase.hotWrites = n + 1 ∧
        σ.lastRead.map (readLabel json) = (oldLabels json hot ++ (seedLabels config.seedEvents
          ++ hotLabels config (n + 1))).rtake config.hotWindow ∧
        (σ.lastRead.getLast?).map (readLabel json)
          = some ("HotWriteEvent", some (.ofNat (config.seedEvents + n)))) ∧
      (σ.phase = .replaying → σ.sub.ended = false →
        ∃ σ', (system config json missing streamPrefix cold hot).Later σ σ' ∧
          σ'.phase = .replayed ∧ σ'.cold = σ.cold ∧ σ'.hot = σ.hot) ∧
      (σ.phase = .replayed → config.seedEvents ≤ σ.count ∧
        (oldLabels json cold = [] → σ.sub.next = σ.cold.stream.events.length)) ∧
      (σ.phase.ColdRead → config.seedBatch = 0 → config.seedEvents = 0) := by
  intro σ h hrunning
  have hinv := (inv_of_reachable hcold hhotFirst h).resolve_left hrunning
  refine ⟨hinv.visible, fun hphase => hinv.sectionA hphase hcoldFirst,
    fun hphase => hinv.readBack hphase hhotFirst, ?_, fun hphase => hinv.replayed hphase hcoldFirst,
    ?_⟩
  · exact fun hphase hended => replay_ends hcoldFirst _ hinv hphase (.inr hended) (le_refl _)
  · intro hread hbatch
    by_contra hseed
    have hstuck := stuck_of_reachable hbatch (Nat.pos_of_ne_zero hseed) h
    rcases hstuck with hphase | hphase | hphase | hphase <;> rw [hphase] at hread <;> exact hread

/-- Two events in batches of one, and a window of one. -/
def twoSeeded : Config := ⟨2, 1, 1, by decide⟩

/-- Two events of another type. -/
def olderView : View := ⟨Stream.empty.append [("Note", .object []), ("Note", .object [])], none, 0⟩

/-- A bench without a failure on two such streams; what is before the window is scavenged, and the
projector gets the older events as well. -/
def wholeBench : List Step :=
  let request := Step.request (fun _ => .epoch) .done
  List.replicate 6 request ++ [.scavenge 3] ++ List.replicate 1202 request
    ++ List.replicate 4 .deliver ++ [request]

/-- The state of that bench after so many steps. -/
def stateAt (n : ℕ) : State :=
  (system twoSeeded epochJson (.atOpening "not found") "view" olderView olderView).after
    (wholeBench.take n) (.start olderView olderView)

theorem hot_cold_view_two :
    (SectionA twoSeeded epochJson olderView olderView (stateAt 9) ∧
      (stateAt 9).hot.visible = (stateAt 9).hot.stream.events.rtake 1) ∧
    ((stateAt 1209).lastRead.getLast?.map (readLabel epochJson)
        = some ("HotWriteEvent", some 101) ∧
      ∃ σ, (system twoSeeded epochJson (.atOpening "not found") "view" olderView olderView).Later
        (stateAt 1209) σ ∧ σ.phase = .replayed) ∧
    (stateAt 1214).phase = .replayed ∧ 2 ≤ (stateAt 1214).count := by
  have hview : ∀ n, ((system twoSeeded epochJson (.atOpening "not found") "view" olderView
      olderView).run (wholeBench.take n) (.start olderView olderView)).isSome → _ :=
    fun n hrun => hot_cold_view twoSeeded epochJson (.atOpening "not found") "view" olderView
      olderView rfl (by decide) (by decide) (stateAt n)
      (System.reachable_after (wholeBench.take n) rfl hrun)
  have hphase : (stateAt 9).phase = .rereading 999 := by decide +kernel
  have hphase' : (stateAt 1209).phase = .replaying := by decide +kernel
  have hphase'' : (stateAt 1214).phase = .replayed := by decide +kernel
  obtain ⟨hvisible, hsectionA, -⟩ := hview 9 (by decide +kernel) (by rw [hphase]; decide)
  obtain ⟨-, -, hreadBack, hreplays, -⟩ :=
    hview 1209 (by decide +kernel) (by rw [hphase']; decide)
  obtain ⟨-, -, -, -, hreplayed, -⟩ :=
    hview 1214 (by decide +kernel) (by rw [hphase'']; decide)
  refine ⟨⟨hsectionA (by rw [hphase]; trivial), hvisible (by rw [hphase]; decide)⟩, ⟨?_, ?_⟩,
    hphase'', (hreplayed hphase'').1⟩
  · obtain ⟨n, hn, -, hlast⟩ := hreadBack (by rw [hphase']; trivial)
    obtain rfl : n = 99 := by
      rw [hphase'] at hn
      exact (Nat.succ.inj hn).symm
    exact hlast
  · obtain ⟨σ, hlater, hdone, -⟩ := hreplays hphase' (by decide +kernel)
    exact ⟨σ, hlater, hdone⟩

end EventSourcing.KurrentDB.HotCold
