import GuitarraMidi.Lib.Steps

/-!
# `Lib.Relay` — messages over a lossy link, a one-slot relay and a line of symbols

A sender puts messages on a link that delivers in order and may drop any of them. A relay keeps the last message
delivered in a slot; from time to time it empties the slot and writes the message, encoded in a fixed number of
symbols, to a line. A receiver reads the line one symbol at a time and accepts a message when it has all of its
symbols.

What becomes of the messages is accounted for (`Accounted`): those accepted, those on the line, the one in the slot and
those on the link are, in this order, some of those sent, and as many are missing as have been dropped or overwritten.
So what is accepted is a sublist of what was sent (`accepted_sublist`), and where nothing is on its way any more, what
has not been accepted has been lost (`length_accepted`).

A client whose receiver does not count symbols is simulated through what it reads (`Accounted.read_run`): the symbols of
the messages accepted, and the beginning of one more.
-/

namespace Relay

open Steps

/-- An encoding of messages by strings of one length. -/
structure Code (μ β : Type*) where
  encode : μ → List β
  decode : List β → μ
  size : Nat
  size_pos : 0 < size
  length_encode : ∀ m, (encode m).length = size
  decode_encode : ∀ m, decode (encode m) = m

structure State (μ β : Type*) where
  sent : List μ
  link : List μ
  slot : Option μ
  line : List β
  /-- the symbols of the message that the receiver is reading -/
  held : List β
  accepted : List μ
  /-- how many messages the link has dropped and how many were overwritten in the slot -/
  lost : Nat

inductive Action (μ : Type*)
  | send (m : μ)
  /-- the `k`-th message on the link is lost -/
  | drop (k : Nat)
  /-- the oldest message on the link comes into the slot -/
  | deliver
  /-- the relay empties the slot -/
  | forward
  /-- the receiver reads a symbol -/
  | read

variable {μ β : Type*} (C : Code μ β)

def start : State μ β where
  sent := []
  link := []
  slot := none
  line := []
  held := []
  accepted := []
  lost := 0

/-- One step, if it is possible. -/
def step (s : State μ β) : Action μ → Option (State μ β)
  | .send m => some { s with sent := s.sent ++ [m], link := s.link ++ [m] }
  | .drop k => if k < s.link.length then some { s with link := s.link.eraseIdx k, lost := s.lost + 1 } else none
  | .deliver =>
      match s.link with
      | [] => none
      | m :: link => some { s with link := link, slot := some m, lost := s.lost + s.slot.toList.length }
  | .forward => some { s with slot := none, line := s.line ++ s.slot.toList.flatMap C.encode }
  | .read =>
      match s.line with
      | [] => none
      | b :: line =>
          if s.held.length + 1 = C.size then
            some { s with line := line, held := [], accepted := s.accepted ++ [C.decode (s.held ++ [b])] }
          else some { s with line := line, held := s.held ++ [b] }

variable {C}

/-! ## What is on its way -/

/-- What has become of the messages sent, `onLine` being those of which symbols are held or on the line. -/
structure Accounted (C : Code μ β) (s : State μ β) (onLine : List μ) : Prop where
  symbols : s.held ++ s.line = onLine.flatMap C.encode
  unfinished : s.held.length < C.size
  inOrder : (s.accepted ++ (onLine ++ (s.slot.toList ++ s.link))).Sublist s.sent
  missing : (s.accepted ++ (onLine ++ (s.slot.toList ++ s.link))).length + s.lost = s.sent.length

theorem accounted_start : Accounted C (start : State μ β) [] where
  symbols := rfl
  unfinished := C.size_pos
  inOrder := List.Sublist.refl []
  missing := rfl

variable {s : State μ β} {onLine : List μ}

/-- The symbols held are the beginning of a message, and with the one that is read its beginning still. -/
theorem Accounted.reading (h : Accounted C s onLine) {b : β} {line : List β} (hline : s.line = b :: line) :
    ∃ m rest, onLine = m :: rest ∧ s.held ++ [b] <+: C.encode m
      ∧ s.held ++ b :: line = C.encode m ++ rest.flatMap C.encode := by
  have hsymbols := h.symbols
  rw [hline] at hsymbols
  cases onLine with
  | nil => exact absurd hsymbols (by simp)
  | cons m rest =>
      rw [List.flatMap_cons] at hsymbols
      refine ⟨m, rest, rfl, ?_, hsymbols⟩
      have hsplit : (s.held ++ [b]) ++ line = C.encode m ++ rest.flatMap C.encode := by
        rw [List.append_assoc, List.singleton_append]
        exact hsymbols
      apply List.prefix_of_prefix_length_le (List.prefix_append (s.held ++ [b]) line)
      · rw [hsplit]
        exact List.prefix_append _ _
      · rw [List.length_append, C.length_encode]
        exact h.unfinished

/-- **What becomes of the messages in one step.** -/
theorem Accounted.step (h : Accounted C s onLine) {a : Action μ} {s' : State μ β} (hstep : step C s a = some s') :
    ∃ onLine', Accounted C s' onLine' := by
  have hmissing := h.missing
  simp only [List.length_append] at hmissing
  cases a with
  | send m =>
      obtain rfl := Option.some.inj hstep
      refine ⟨onLine, h.symbols, h.unfinished, ?_, ?_⟩
      · have hlast := h.inOrder.append (List.Sublist.refl [m])
        simpa only [List.append_assoc] using hlast
      · simp only [List.length_append, List.length_singleton]
        omega
  | drop k =>
      by_cases hk : k < s.link.length
      · rw [Relay.step, if_pos hk] at hstep
        obtain rfl := Option.some.inj hstep
        refine ⟨onLine, h.symbols, h.unfinished, ?_, ?_⟩
        · have hfewer := (List.eraseIdx_sublist s.link k).append_left s.slot.toList
          exact ((hfewer.append_left onLine).append_left s.accepted).trans h.inOrder
        · simp only [List.length_append, List.length_eraseIdx_of_lt hk]
          omega
      · rw [Relay.step, if_neg hk] at hstep
        exact absurd hstep (by simp)
  | deliver =>
      rw [Relay.step] at hstep
      split at hstep
      · exact absurd hstep (by simp)
      · rename_i m link hlink
        obtain rfl := Option.some.inj hstep
        rw [hlink, List.length_cons] at hmissing
        refine ⟨onLine, h.symbols, h.unfinished, ?_, ?_⟩
        · -- what was in the slot is lost
          have hfewer := List.sublist_append_right s.slot.toList (m :: link)
          have hinOrder := h.inOrder
          rw [hlink] at hinOrder
          exact ((hfewer.append_left onLine).append_left s.accepted).trans hinOrder
        · simp only [List.length_append, Option.toList_some, List.length_singleton]
          omega
  | forward =>
      obtain rfl := Option.some.inj hstep
      refine ⟨onLine ++ s.slot.toList, ?_, h.unfinished, ?_, ?_⟩
      · rw [List.flatMap_append, ← h.symbols, List.append_assoc]
      · have hinOrder := h.inOrder
        simpa only [List.append_assoc, Option.toList_none, List.nil_append] using hinOrder
      · simp only [List.length_append, Option.toList_none, List.length_nil]
        omega
  | read =>
      rw [Relay.step] at hstep
      split at hstep
      · exact absurd hstep (by simp)
      · rename_i b line hline
        obtain ⟨m, rest, rfl, hprefix, hsymbols⟩ := h.reading hline
        split at hstep
        · rename_i hlast
          obtain rfl := Option.some.inj hstep
          have hwhole : s.held ++ [b] = C.encode m := by
            apply hprefix.eq_of_length
            rw [List.length_append, List.length_singleton, C.length_encode]
            exact hlast
          have hinOrder := h.inOrder
          rw [List.length_cons] at hmissing
          refine ⟨rest, ?_, C.size_pos, ?_, ?_⟩
          · rw [← hwhole, List.append_assoc, List.singleton_append] at hsymbols
            have hrest := List.append_cancel_left hsymbols
            exact (List.cons.inj hrest).2
          · rw [hwhole, C.decode_encode]
            simpa only [List.append_assoc, List.singleton_append, List.cons_append, List.nil_append] using hinOrder
          · simp only [List.length_append, List.length_singleton]
            omega
        · rename_i hmore
          obtain rfl := Option.some.inj hstep
          refine ⟨m :: rest, ?_, ?_, h.inOrder, h.missing⟩
          · rw [List.append_assoc, List.singleton_append, List.flatMap_cons]
            exact hsymbols
          · have hunfinished := h.unfinished
            rw [List.length_append, List.length_singleton]
            omega

/-! ## What is read -/

/-- The symbols that have been read: those of the messages accepted, and those held. -/
def State.symbols (C : Code μ β) (s : State μ β) : List β := s.accepted.flatMap C.encode ++ s.held

/-- The next symbol on the line can be read, and is the next of those that have been. -/
theorem Accounted.read (h : Accounted C s onLine) {b : β} {line : List β} (hline : s.line = b :: line) :
    ∃ s', Relay.step C s .read = some s' ∧ s'.line = line ∧ s'.symbols C = s.symbols C ++ [b]
      ∧ s'.sent = s.sent ∧ s'.link = s.link ∧ s'.slot = s.slot ∧ s'.lost = s.lost := by
  obtain ⟨m, rest, -, hprefix, -⟩ := h.reading hline
  rw [Relay.step, hline]
  dsimp only
  by_cases hlast : s.held.length + 1 = C.size
  · have hwhole : s.held ++ [b] = C.encode m := by
      apply hprefix.eq_of_length
      rw [List.length_append, List.length_singleton, C.length_encode]
      exact hlast
    rw [if_pos hlast]
    refine ⟨_, rfl, rfl, ?_, rfl, rfl, rfl, rfl⟩
    unfold State.symbols
    rw [hwhole, C.decode_encode, List.flatMap_append, List.flatMap_singleton, List.append_nil, ← hwhole,
      List.append_assoc]
  · rw [if_neg hlast]
    exact ⟨_, rfl, rfl, (List.append_assoc _ _ _).symm, rfl, rfl, rfl, rfl⟩

/-- The next symbols on the line can be read one after another. -/
theorem Accounted.read_run (h : Accounted C s onLine) {bs line : List β} (hline : s.line = bs ++ line) :
    ∃ s', run (Relay.step C) s (List.replicate bs.length .read) = some s' ∧ s'.line = line
      ∧ s'.symbols C = s.symbols C ++ bs
      ∧ s'.sent = s.sent ∧ s'.link = s.link ∧ s'.slot = s.slot ∧ s'.lost = s.lost := by
  induction bs generalizing s onLine with
  | nil => exact ⟨s, rfl, hline, (List.append_nil _).symm, rfl, rfl, rfl, rfl⟩
  | cons b bs ih =>
      obtain ⟨t, hstep, htline, hsymbols, hsent, hlink, hslot, hlost⟩ := h.read hline
      obtain ⟨_, ht⟩ := h.step hstep
      obtain ⟨s', hrun, hline', hsymbols', hsent', hlink', hslot', hlost'⟩ := ih ht htline
      refine ⟨s', ?_, hline', ?_, hsent'.trans hsent, hlink'.trans hlink, hslot'.trans hslot, hlost'.trans hlost⟩
      · rw [List.length_cons, List.replicate_succ, run, hstep]
        exact hrun
      · rw [hsymbols', hsymbols, List.append_assoc, List.singleton_append]

/-! ## Runs -/

/-- **What becomes of the messages in a run.** -/
theorem accounted_run {acts : List (Action μ)} (h : run (step C) start acts = some s) :
    ∃ onLine, Accounted C s onLine := by
  refine run_induction (P := fun _ s => ∃ onLine, Accounted C s onLine) ⟨[], accounted_start⟩ ?_ h
  rintro acts a s s' - ⟨onLine, hs⟩ hstep
  exact hs.step hstep

/-- **What is accepted was sent**, in the same order and each message at most once. -/
theorem accepted_sublist {acts : List (Action μ)} (h : run (step C) start acts = some s) :
    s.accepted.Sublist s.sent := by
  obtain ⟨onLine, hs⟩ := accounted_run h
  exact (List.sublist_append_left _ _).trans hs.inOrder

/-- **Where nothing is on its way, what has not been accepted has been lost.** -/
theorem length_accepted {acts : List (Action μ)} (h : run (step C) start acts = some s)
    (hlink : s.link = []) (hslot : s.slot = none) (hline : s.line = []) :
    s.accepted.length + s.lost = s.sent.length := by
  obtain ⟨onLine, hs⟩ := accounted_run h
  have hnone : onLine = [] := by
    cases onLine with
    | nil => rfl
    | cons m rest =>
        -- the symbols of a message do not fit into what is held
        have hsymbols := congrArg List.length hs.symbols
        rw [hline, List.append_nil, List.flatMap_cons, List.length_append, C.length_encode] at hsymbols
        have hunfinished := hs.unfinished
        omega
  have hmissing := hs.missing
  rw [hnone, hslot, hlink] at hmissing
  simpa using hmissing

end Relay
