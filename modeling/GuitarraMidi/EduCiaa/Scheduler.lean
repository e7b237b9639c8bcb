import GuitarraMidi.EduCiaa.MidiSdi

/-!
# `EduCiaa.Scheduler` — the queue of MIDI events

`midi_scheduler.c`: 32 slots, each free or holding a note on or a note off with the time it is due.
Scheduling takes the first free slot; `midiSchedProcess` goes through the slots in order and sends what is
due, by the sign of the 32-bit difference between the two times.

`main` initialises the queue and processes it on every pass, but never schedules anything.
-/

namespace GuitarraMidi.EduCiaa

/-- `EvType`. -/
inductive EvType
  | evOn
  | evOff
deriving DecidableEq, Repr

/-- `MidiEv`. -/
structure MidiEv where
  t : UInt32
  type : EvType
  ch : UInt8
  note : UInt8
  vel : UInt8
  used : UInt8
deriving DecidableEq, Repr

/-- `QSIZE`. -/
def qSize : Nat := 32

/-- `static MidiEv q[QSIZE]`. -/
abbrev Queue := Vector MidiEv qSize

def midiSchedInit (q : Queue) : Queue := q.map (fun ev => { ev with used := 0 })

/-- `allocSlot`; `none` is the result `-1`. -/
def allocSlot (q : Queue) : Option (Fin qSize) := (List.finRange qSize).find? (fun i => q[i].used == 0)

/-- What `midiSchedNoteOn` and `midiSchedNoteOff` have in common. -/
def schedule (q : Queue) (type : EvType) (t_ms : UInt32) (ch note vel : UInt8) : Queue × Bool :=
  match allocSlot q with
  | none => (q, false)
  | some k => (q.set k ⟨t_ms, type, ch, note, vel, 1⟩, true)

def midiSchedNoteOn (q : Queue) (t_ms : UInt32) (ch note vel : UInt8) : Queue × Bool :=
  schedule q .evOn t_ms ch note vel

def midiSchedNoteOff (q : Queue) (t_ms : UInt32) (ch note vel : UInt8) : Queue × Bool :=
  schedule q .evOff t_ms ch note vel

/-- The body of the loop of `midiSchedProcess`. -/
def processSlot (now_ms : UInt32) (ev : MidiEv) : MidiEv × List SdiWrite :=
  if ev.used = 0 then (ev, [])
  -- the difference is taken modulo 2^32, so a time up to 2^31 ms back counts as past
  else if (now_ms - ev.t).toInt32 ≥ 0 then
    ({ ev with used := 0 },
      if ev.type = .evOn then midiNoteOn ev.ch ev.note ev.vel else midiNoteOff ev.ch ev.note ev.vel)
  else (ev, [])

/-- `midiSchedProcess`: no slot depends on another, and the writes come in the order of the slots. -/
def midiSchedProcess (now_ms : UInt32) (q : Queue) : Queue × List SdiWrite :=
  (q.map (fun ev => (processSlot now_ms ev).1), q.toList.flatMap (fun ev => (processSlot now_ms ev).2))

/-! ## Calls -/

/-- A call to the scheduler. -/
inductive SchedCall
  | noteOn (t_ms : UInt32) (ch note vel : UInt8)
  | noteOff (t_ms : UInt32) (ch note vel : UInt8)
  | process (now_ms : UInt32)

/-- The event a schedule call stores. -/
def eventOf (type : EvType) (t_ms : UInt32) (ch note vel : UInt8) : MidiEv := ⟨t_ms, type, ch, note, vel, 1⟩

/-- What a call answers or writes. -/
inductive SchedOutput
  | scheduled (ev : MidiEv) (ok : Bool)
  | sdi (w : SdiWrite)
deriving DecidableEq

/-- A schedule call with its answer in view. -/
def answered (ev : MidiEv) (r : Queue × Bool) : Queue × List SchedOutput := (r.1, [.scheduled ev r.2])

def schedCall (q : Queue) : SchedCall → Queue × List SchedOutput
  | .noteOn t_ms ch note vel => answered (eventOf .evOn t_ms ch note vel) (midiSchedNoteOn q t_ms ch note vel)
  | .noteOff t_ms ch note vel => answered (eventOf .evOff t_ms ch note vel) (midiSchedNoteOff q t_ms ch note vel)
  | .process now_ms => ((midiSchedProcess now_ms q).1, (midiSchedProcess now_ms q).2.map .sdi)

/-- The events that schedule calls accepted. -/
def SchedOutput.accepted? : SchedOutput → Option MidiEv
  | .scheduled ev true => some ev
  | _ => none

/-- The answer of a schedule call that failed. -/
def SchedOutput.refused : SchedOutput → Bool
  | .scheduled _ false => true
  | _ => false

def SchedOutput.sdi? : SchedOutput → Option SdiWrite
  | .sdi w => some w
  | _ => none

/-! ## The empty queue -/

/-- No slot is in use. -/
def Queue.Idle (q : Queue) : Prop := ∀ ev ∈ q.toList, ev.used = 0

theorem idle_midiSchedInit (q : Queue) : Queue.Idle (midiSchedInit q) := by
  intro ev hev
  rw [midiSchedInit, Vector.toList_map] at hev
  obtain ⟨old, -, rfl⟩ := List.mem_map.mp hev
  rfl

theorem processSlot_of_free {ev : MidiEv} (h : ev.used = 0) (now_ms : UInt32) :
    processSlot now_ms ev = (ev, []) := if_pos h

/-- **An empty queue stays empty and sends nothing**, whatever the time. -/
theorem midiSchedProcess_of_idle {q : Queue} (h : q.Idle) (now_ms : UInt32) :
    midiSchedProcess now_ms q = (q, []) := by
  have hfree : ∀ ev ∈ q.toList, processSlot now_ms ev = (ev, []) := by
    intro ev hev
    exact processSlot_of_free (h ev hev) now_ms
  have hqueue : q.map (fun ev => (processSlot now_ms ev).1) = q := by
    apply Vector.toList_inj.mp
    rw [Vector.toList_map, List.map_congr_left (fun ev hev => congrArg Prod.fst (hfree ev hev))]
    exact List.map_id _
  have hwrites : q.toList.flatMap (fun ev => (processSlot now_ms ev).2) = [] := by
    rw [List.flatMap_eq_nil_iff]
    intro ev hev
    rw [hfree ev hev]
  rw [midiSchedProcess, hqueue, hwrites]

end GuitarraMidi.EduCiaa
