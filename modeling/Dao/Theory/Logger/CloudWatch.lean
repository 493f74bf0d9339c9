import Dao.Core.Logger.CloudWatch

/-!
# The Limits of a Batch

Every batch is within the limits of the service, and the batches together hold
the messages.

`Fits` is kept by every step: what was published is within the limits, and so
is what is held back, whose size is the count of bytes. An event alone is within
the limits, so it can always be added after publishing.

A batch is submitted in the order of its timestamps. Nothing is promised of two
events with one timestamp, since `sort.Sort` is not stable.

## Theorems

* `collectBatch_limits`: The batches are within the limits and hold the messages.
* `mergeSort_sameOrder`: A stable sort keeps the order of each timestamp.
* `publishBatch_sorted`: When every conforming sort keeps it.
-/

namespace Dao.CloudWatch

open List

/-- The bytes the service counts for a batch. -/
def putBytes (events : List InputLogEvent) : Nat :=
  (events.map fun e => e.message.length + perEventBytes).sum

/-- The limits of the service. -/
structure Allowed (events : List InputLogEvent) : Prop where
  count : events.length ≤ maximumLogEventsPerPut
  each : ∀ e ∈ events, e.message.length ≤ maximumBytesPerEvent
  total : putBytes events ≤ maximumBytesPerPut

/-- The contents of events. -/
def text (events : List InputLogEvent) : Bytes := events.flatMap InputLogEvent.message

/-- The invariant, over the text that was received. -/
structure Fits (received : Bytes) (b : Batch) : Prop where
  published : ∀ events ∈ b.published, Allowed events
  held : Allowed b.events
  bytes : b.bytes = putBytes b.events
  text : text b.published.flatten ++ text b.events = received

variable {received : Bytes} {b : Batch}

theorem allowed_nil : Allowed [] := ⟨Nat.zero_le _, nofun, Nat.zero_le _⟩

theorem text_append (xs ys : List InputLogEvent) : text (xs ++ ys) = text xs ++ text ys :=
  flatMap_append

theorem putBytes_concat (events : List InputLogEvent) (event : InputLogEvent) :
    putBytes (events ++ [event]) = putBytes events + (event.message.length + perEventBytes) := by
  simp [putBytes]

theorem fits_publish (h : Fits received b) : Fits received b.publish where
  published := by
    intro events hmem
    rcases mem_append.mp hmem with hmem | hmem
    · exact h.published events hmem
    · rw [mem_singleton.mp hmem]
      exact h.held
  held := allowed_nil
  bytes := rfl
  text := by
    rw [← h.text, Batch.publish, flatten_append, flatten_singleton, text_append]
    exact append_nil _

theorem fits_append (h : Fits received b) {event : InputLogEvent}
    (heach : event.message.length ≤ maximumBytesPerEvent)
    (hcount : b.events.length < maximumLogEventsPerPut)
    (htotal : b.bytes + event.message.length + perEventBytes ≤ maximumBytesPerPut) :
    Fits (received ++ event.message) { b with
      events := b.events ++ [event]
      bytes := b.bytes + (event.message.length + perEventBytes) } where
  published := h.published
  held := by
    refine ⟨?_, ?_, ?_⟩
    · rw [length_append]
      exact hcount
    · intro e he
      rcases mem_append.mp he with he | he
      · exact h.held.each e he
      · rw [mem_singleton.mp he]
        exact heach
    · rw [putBytes_concat, ← h.bytes]
      omega
  bytes := by rw [putBytes_concat, h.bytes]
  text := by
    rw [text_append, ← append_assoc, h.text]
    exact congrArg _ (append_nil _)

theorem fits_add (h : Fits received b) {event : InputLogEvent}
    (heach : event.message.length ≤ maximumBytesPerEvent) :
    Fits (received ++ event.message) (b.add event) := by
  unfold Batch.add
  simp only
  split
  · -- The new batch is empty, and one event is within the limits.
    refine fits_append (fits_publish h) heach (Nat.zero_lt_succ _) ?_
    change 0 + event.message.length + perEventBytes ≤ maximumBytesPerPut
    unfold maximumBytesPerEvent perEventBytes at heach
    unfold perEventBytes maximumBytesPerPut
    omega
  · next hfits => exact fits_append h heach (by omega) (by omega)

theorem fits_addLine (timestamp : Int64) (line : Bytes) (b : Batch) :
    ∀ {received : Bytes}, Fits received b → Fits (received ++ line) (addLine timestamp line b) := by
  induction line, b using addLine.induct timestamp with
  | case1 b =>
    intro received h
    rw [addLine, if_pos rfl, append_nil]
    exact h
  | case2 line b hne ih =>
    intro received h
    rw [addLine, if_neg hne]
    have hrest := ih (fits_add h (length_take_le _ _))
    rw [append_assoc, take_append_drop] at hrest
    exact hrest

/-- The text of the messages. -/
def lines (inputs : List Input) : Bytes :=
  inputs.flatMap (fun input => match input with
    | .tick => []
    | .message msg => msg.line)

theorem collectBatch_fits (inputs : List Input) : ∀ {before : Bytes} {b : Batch}, Fits before b →
    (∀ events ∈ collectBatch inputs b, Allowed events) ∧
      text (collectBatch inputs b).flatten = before ++ lines inputs := by
  induction inputs with
  | nil =>
    intro before b h
    have hpublish := fits_publish h
    refine ⟨hpublish.published, ?_⟩
    have htext := hpublish.text
    rw [show text b.publish.events = [] from rfl, append_nil] at htext
    rw [lines, flatMap_nil, append_nil]
    exact htext
  | cons input inputs ih =>
    intro before b h
    rcases input with _ | msg
    · exact ih (fits_publish h)
    have hline := ih (fits_addLine (msg.unixNano / 1000000) msg.line b h)
    rw [append_assoc] at hline
    exact hline

/-- For every sequence of messages and ticks up to the close of the channel, every batch that
    is published is within the limits, and the batches in order hold the messages in order. -/
theorem collectBatch_limits (inputs : List Input) :
    (∀ events ∈ collectBatch inputs .empty, events.length ≤ maximumLogEventsPerPut ∧
      (∀ e ∈ events, e.message.length ≤ maximumBytesPerEvent) ∧
      (events.map (fun e => e.message.length + perEventBytes)).sum ≤ maximumBytesPerPut) ∧
    (collectBatch inputs .empty).flatten.flatMap InputLogEvent.message = lines inputs := by
  have hempty : Fits [] .empty := ⟨nofun, allowed_nil, rfl, rfl⟩
  rcases collectBatch_fits inputs hempty with ⟨hallowed, htext⟩
  exact ⟨fun events hmem => ⟨(hallowed events hmem).count, (hallowed events hmem).each,
    (hallowed events hmem).total⟩, htext⟩

/-- The timestamps do not decrease. -/
def InOrder (events : List InputLogEvent) : Prop := events.Pairwise (fun a b => !less b a)

/-- What `sort.Sort` promises. -/
def Conforming (sort : List InputLogEvent → List InputLogEvent) : Prop :=
  ∀ events, (sort events).Perm events ∧ InOrder (sort events)

/-- Events with one timestamp keep their order. -/
def SameOrder (events sorted : List InputLogEvent) : Prop :=
  ∀ t, sorted.filter (·.timestamp == t) = events.filter (·.timestamp == t)

theorem sameOrder_of_perm {events sorted : List InputLogEvent} (hperm : sorted.Perm events)
    (hsame : ∀ a ∈ events, ∀ b ∈ events, a.timestamp = b.timestamp → a = b) :
    SameOrder events sorted := by
  intro t
  have hfilter := hperm.filter (·.timestamp == t)
  have hall : ∀ a ∈ events.filter (·.timestamp == t), ∀ b ∈ events.filter (·.timestamp == t),
      a = b := by
    simp only [mem_filter, beq_iff_eq]
    exact fun a ha b hb => hsame a ha.1 b hb.1 (ha.2.trans hb.2.symm)
  generalize events.filter (·.timestamp == t) = same at *
  rcases same with _ | ⟨a, rest⟩
  · exact hfilter.eq_nil
  · rw [eq_replicate_of_mem (fun b hb => hall b hb a mem_cons_self)] at hfilter ⊢
    exact perm_replicate.mp hfilter

theorem mem_publishBatch {sort : List InputLogEvent → List InputLogEvent}
    {events sorted : List InputLogEvent} {refused : Bool}
    (h : sorted ∈ publishBatch sort events refused) : sorted = sort events := by
  unfold publishBatch at h
  split_ifs at h
  · nomatch h
  · simpa using h
  · exact mem_singleton.mp h

def mergeSorted (events : List InputLogEvent) : List InputLogEvent :=
  events.mergeSort fun a b => !less b a

theorem less_trans (a b c : InputLogEvent) (hab : !less b a) (hbc : !less c b) : !less c a := by
  simp only [less] at *
  grind

theorem less_total (a b : InputLogEvent) : !less b a || !less a b := by
  simp only [less]
  grind

theorem mergeSort_sameOrder (events : List InputLogEvent) :
    SameOrder events (mergeSorted events) := by
  intro t
  have hperm : (mergeSorted events).Perm events := mergeSort_perm _ _
  have hsub : events.filter (·.timestamp == t) <+ mergeSorted events := by
    refine sublist_mergeSort less_trans less_total (pairwise_of_forall_mem_list ?_) filter_sublist
    intro a ha b hb
    rw [mem_filter, beq_iff_eq] at ha hb
    simp [less, ha.2, hb.2]
  have hfilter := hsub.filter (·.timestamp == t)
  simp only [filter_filter, Bool.and_self] at hfilter
  exact (hfilter.eq_of_length (hperm.filter _).length_eq.symm).symm

/-- A conforming sort that starts with the events of which the test holds. -/
def sortFrom (first : InputLogEvent → Bool) (events : List InputLogEvent) : List InputLogEvent :=
  mergeSorted (events.filter first ++ events.filter fun e => !first e)

theorem sortFrom_conforming (first : InputLogEvent → Bool) : Conforming (sortFrom first) :=
  fun events => ⟨(mergeSort_perm _ _).trans (filter_append_perm first events),
    pairwise_mergeSort less_trans less_total _⟩

/-- What is submitted is sorted. It is stable for every conforming sort just if only
    equal events have equal timestamps. -/
theorem publishBatch_sorted (events : List InputLogEvent) :
    (∀ sort refused, Conforming sort → ∀ sorted ∈ publishBatch sort events refused,
      InOrder sorted) ∧
    ((∀ sort refused, Conforming sort → ∀ sorted ∈ publishBatch sort events refused,
        SameOrder events sorted) ↔
      ∀ a ∈ events, ∀ b ∈ events, a.timestamp = b.timestamp → a = b) := by
  refine ⟨fun sort refused hsort sorted hmem => ?_, fun hstable a ha b hb htime => ?_,
    fun hsame sort refused hsort sorted hmem => ?_⟩
  · rw [mem_publishBatch hmem]
    exact (hsort events).2
  · -- Two sorts, one of which starts with `b` and the other with all but `b`.
    by_contra hne
    have hfirst : ∀ first, events.filter (·.timestamp == b.timestamp) =
        (events.filter first ++ events.filter fun e => !first e).filter
          (·.timestamp == b.timestamp) := by
      intro first
      have hmem : sortFrom first events ∈ publishBatch (sortFrom first) events false := by
        rw [publishBatch, if_neg (by simpa using ne_nil_of_mem ha)]
        exact mem_singleton_self _
      exact (hstable _ false (sortFrom_conforming first) _ hmem _).symm.trans
        (mergeSort_sameOrder _ _)
    have hswap := (hfirst fun e => e = b).symm.trans (hfirst fun e => e ≠ b)
    simp only [filter_append, filter_filter] at hswap
    -- The first list begins with `b`, and the second does not.
    have hb' : b ∈ events.filter fun e => e.timestamp == b.timestamp && decide (e = b) := by
      simp [hb]
    have ha' : a ∈ events.filter fun e => e.timestamp == b.timestamp && decide (e ≠ b) := by
      simp [ha, hne, htime]
    rcases hl : events.filter (fun e => e.timestamp == b.timestamp && decide (e = b)) with
      _ | ⟨x, l⟩
    · rw [hl] at hb'
      nomatch hb'
    rcases hl' : events.filter (fun e => e.timestamp == b.timestamp && decide (e ≠ b)) with
      _ | ⟨y, l'⟩
    · rw [hl'] at ha'
      nomatch ha'
    rw [hl, hl', cons_append, cons_append] at hswap
    have hx : x ∈ events.filter fun e => e.timestamp == b.timestamp && decide (e = b) := by
      rw [hl]
      exact mem_cons_self
    have hy : y ∈ events.filter fun e => e.timestamp == b.timestamp && decide (e ≠ b) := by
      rw [hl']
      exact mem_cons_self
    simp only [mem_filter, Bool.and_eq_true, decide_eq_true_eq] at hx hy
    exact hy.2.2 ((cons.inj hswap).1.symm.trans hx.2.2)
  · rw [mem_publishBatch hmem]
    exact sameOrder_of_perm (hsort events).1 hsame

/-- The two pieces of a line are swapped. -/
theorem pieces_swapped : let sort := sortFrom (· = ⟨[98], 0⟩)
    Conforming sort ∧
      publishBatch sort [⟨[97], 0⟩, ⟨[98], 0⟩] false = [[⟨[98], 0⟩, ⟨[97], 0⟩]] :=
  ⟨sortFrom_conforming _, by simp [publishBatch, sortFrom, mergeSorted, mergeSort, less]⟩

end Dao.CloudWatch
