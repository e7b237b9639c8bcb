import GuitarraMidi.TestLatency.Correctness.Delivery
import GuitarraMidi.TestLatency.Correctness.Noise
import GuitarraMidi.TestLatency.Correctness.PulseLoss

/-!
# `TestLatency.Correctness.StrumsPlayed` — the strums of the emisor and the strums that are played

What the EDU-CIAA plays depends only on the packets it has accepted and on the tick readings they are processed with
(`strums_eq`), and these are some of the packets sent. So in any run of the whole test, whatever is lost and however the
three programs are interleaved:

* what has been played are strums of the emisor, in their order, each at most once, with their own chord and with the
  velocity 127 (`strums_played`);
* once nothing is on its way, and if the peaks were processed more than the cooldown apart and the first of them more
  than it after 0, at most as many strums of a chord are missing as packets were lost, and none if none were
  (`strums_missed`).
-/

namespace GuitarraMidi.TestLatency

open Binary32 Clock EduCiaa EduCiaa.ChordQuality Framing Transducer

/-! ## The packets of a strum -/

theorem gzValue_gzPico : gzValue Emisor.gzPico = 500 := by
  have hunpack : (Program.float Emisor.gzPico).unpack = .finite .positive 16384000 (-15) (by decide) := rfl
  rw [gzValue, hunpack]
  show ((16384000 : Nat) : ℚ) * 2 ^ (-15 : Int) = 500
  norm_num

theorem gzValue_cero : gzValue Emisor.cero = 0 := rfl

theorem packetOf_sendPacket (mask : UInt8) (gz : UInt32) :
    packetOf (Emisor.sendPacket default mask gz) = sendPacket mask (gzValue gz) := rfl

/-- The chord of a strum with the buttons `mask`. -/
def chordOf (mask : UInt8) : ButtonChord := (sendPacket mask 500).chord

/-- **The emisor can only ask for minor chords**: B0 takes no part, and the chords with B0 up are minor. -/
theorem chordOf_minor (mask : UInt8) (h : (chordOf mask).tipo ≠ chordNone) : (chordOf mask).tipo = chordMinor := by
  obtain ⟨b₁, h₁⟩ := botonOf_cases mask 1
  obtain ⟨b₂, h₂⟩ := botonOf_cases mask 2
  obtain ⟨b₃, h₃⟩ := botonOf_cases mask 3
  have hchord : chordOf mask
      = getChordFromButtons (obtenerValorBotones #v[0, b₁.toUInt8, b₂.toUInt8, b₃.toUInt8]) := by
    rw [← h₁, ← h₂, ← h₃]
    rfl
  rw [hchord] at h ⊢
  revert h
  cases b₁ <;> cases b₂ <;> cases b₃ <;> decide

/-- Whether the buttons `mask` select a chord. -/
def hasChord (mask : UInt8) : Bool := (chordOf mask).tipo ≠ chordNone

/-- Whether a packet selects a chord. -/
def Packet.hasChord (m : Packet) : Bool := m.chord.tipo ≠ chordNone

/-- Whether `gz` is over the threshold. -/
def Packet.above (m : Packet) : Bool := m.gz > strumTh

/-- The packets of a strum, as the loop on packets sees them. -/
theorem map_strumPackets (mask : UInt8) :
    (Emisor.strumPackets mask).map packetOf = [sendPacket mask 500, sendPacket mask 0] := by
  unfold Emisor.strumPackets
  rw [List.map_cons, List.map_singleton, packetOf_sendPacket, packetOf_sendPacket, gzValue_gzPico, gzValue_cero]

theorem above_peak (mask : UInt8) : (sendPacket mask 500).above = true := peak_above ⟨mask, 0, 0⟩

theorem above_rest (mask : UInt8) : (sendPacket mask 0).above = false := rest_below ⟨mask, 0, 0⟩

/-! ## The detector -/

/-- What a packet is played as, if the detector lets it. -/
def Packet.played? (m : Packet) : Option (ButtonChord × UInt8) :=
  if m.hasChord && m.above then some (m.chord, 127) else none

/-- The chord and the velocity of a call to `strumChord`. -/
def chordAndVelocity (c : ButtonChord × UInt8 × UInt32) : ButtonChord × UInt8 := (c.1, c.2.1)

theorem hasChord_iff {m : Packet} : m.hasChord = true ↔ m.chord.tipo ≠ chordNone := decide_eq_true_iff

/-- A packet without a chord is not seen. -/
theorem detectArrival_of_none {d : Detector} {a : UInt32 × Packet} (h : a.2.hasChord = false) :
    detectArrival d a = (d, []) := by
  unfold detectArrival
  exact if_neg (fun hchord => Bool.eq_false_iff.mp h (hasChord_iff.mpr hchord))

theorem detectArrival_played (d : Detector) (a : UInt32 × Packet) :
    ((detectArrival d a).2.map chordAndVelocity).Sublist a.2.played?.toList := by
  cases hchord : a.2.hasChord with
  | false =>
      rw [detectArrival_of_none hchord]
      exact List.nil_sublist _
  | true =>
      rw [detectArrival_of_chord (hasChord_iff.mp hchord)]
      cases hstrum : isStrum d a.2.gz a.1 with
      | false => exact List.nil_sublist _
      | true =>
          have hevent : (detectStrum d a.2.gz a.1).2 = true := by
            rw [detectStrum_eq]
            exact hstrum
          have habove : a.2.gz > strumTh := above_of_event hevent
          have hplayed : a.2.played? = some (a.2.chord, 127) := by
            unfold Packet.played?
            rw [hchord, show a.2.above = true from decide_eq_true habove]
            rfl
          rw [hplayed, if_pos rfl, velocityFromGz_of_gt habove]
          exact List.Sublist.refl _

/-- **What is played are packets over the threshold**, each at most once. -/
theorem emit_detectArrival_sublist (d : Detector) (as : List (UInt32 × Packet)) :
    ((emit detectArrival d as).map chordAndVelocity).Sublist ((as.map Prod.snd).filterMap Packet.played?) := by
  induction as generalizing d with
  | nil => exact List.Sublist.refl []
  | cons a as ih =>
      have hsplit : ((a :: as).map Prod.snd).filterMap Packet.played?
          = a.2.played?.toList ++ (as.map Prod.snd).filterMap Packet.played? := by
        rw [List.map_cons, List.filterMap_cons]
        cases a.2.played? <;> rfl
      rw [emit_cons, List.map_append, hsplit]
      exact (detectArrival_played d a).append (ih _)

/-- The readings of the peaks that select a chord. -/
def peakReadings (as : List (UInt32 × Packet)) : List UInt32 :=
  (as.filter (fun a => a.2.hasChord && a.2.above)).map Prod.fst

theorem peakReadings_cons (a : UInt32 × Packet) (as : List (UInt32 × Packet)) :
    peakReadings (a :: as) = if a.2.hasChord && a.2.above then a.1 :: peakReadings as else peakReadings as := by
  unfold peakReadings
  rw [List.filter_cons]
  split <;> rfl

/-- **Where the peaks are more than the cooldown apart, the detector counts the rises over the threshold** among the
    packets that select a chord. -/
theorem length_emit_detectArrival {d : Detector} {as : List (UInt32 × Packet)}
    (h : (d.lastStrumMs :: peakReadings as).Pairwise (fun t t' => strumCooldown < t' - t)) :
    (emit detectArrival d as).length
      = Debounce.rises d.above (((as.map Prod.snd).filter Packet.hasChord).map Packet.above) := by
  induction as generalizing d with
  | nil => rfl
  | cons a as ih =>
      rw [peakReadings_cons] at h
      rw [List.map_cons, List.filter_cons, emit_cons, List.length_append]
      cases hchord : a.2.hasChord with
      | false =>
          rw [hchord, Bool.false_and, if_neg Bool.false_ne_true] at h
          rw [detectArrival_of_none hchord, if_neg Bool.false_ne_true, ih h, List.length_nil, Nat.zero_add]
      | true =>
          rw [hchord, Bool.true_and] at h
          rw [detectArrival_of_chord (hasChord_iff.mp hchord), if_pos rfl, List.map_cons, Debounce.rises,
            show decide (a.2.gz > strumTh) = a.2.above from rfl]
          cases habove : a.2.above with
          | false =>
              rw [habove, if_neg Bool.false_ne_true] at h
              have hstrum : isStrum d a.2.gz a.1 = false := by
                rw [isStrum, show decide (a.2.gz > strumTh) = a.2.above from rfl, habove, Bool.and_false,
                  Bool.false_and]
              have hlen := @ih ⟨d.lastStrumMs, false⟩ h
              rw [hstrum, if_neg Bool.false_ne_true, if_neg Bool.false_ne_true, hlen]
              rfl
          | true =>
              rw [habove, if_pos rfl] at h
              have hcool : strumCooldown < a.1 - d.lastStrumMs := (List.pairwise_cons.mp h).1 a.1 List.mem_cons_self
              have hstrum : isStrum d a.2.gz a.1 = !d.above := by
                rw [isStrum, show decide (a.2.gz > strumTh) = a.2.above from rfl, habove, decide_eq_true hcool,
                  Bool.and_true, Bool.and_true]
              rw [hstrum]
              cases hup : d.above with
              | false =>
                  have hlen := @ih ⟨a.1, true⟩ (List.pairwise_cons.mp h).2
                  rw [Bool.not_false, if_pos rfl, if_pos rfl, hlen]
                  rfl
              | true =>
                  have hrest := h.sublist ((List.sublist_cons_self a.1 (peakReadings as)).cons_cons d.lastStrumMs)
                  have hlen := @ih ⟨d.lastStrumMs, true⟩ hrest
                  rw [Bool.not_true, if_neg Bool.false_ne_true, if_neg Bool.false_ne_true, hlen]
                  rfl

/-! ## The loop on packets -/

/-- The packets of the passes, each with the reading it is processed with. -/
def flatten (decoded : List (UInt32 × List Packet)) : List (UInt32 × Packet) :=
  decoded.flatMap (fun x => x.2.map (fun m => (x.1, m)))

theorem map_snd_flatten (decoded : List (UInt32 × List Packet)) :
    (flatten decoded).map Prod.snd = decoded.flatMap Prod.snd := by
  unfold flatten
  rw [List.map_flatMap]
  apply List.flatMap_congr
  intro x _
  rw [List.map_map]
  exact List.map_id _

/-- The strums of a run, by the readings themselves. -/
theorem strums_decoded (q : Queue) (decoded : List (UInt32 × List Packet)) :
    (emit mainPass (mainStart q) decoded).filterMap MainOutput.strum?
      = emit detectArrival Detector.start (flatten decoded) := by
  -- a reading is the tick of a true time, itself
  have hself : ∀ t : UInt32, tick t.toNat = t := fun t => UInt32.ofNat_toNat
  have hticked : (decoded.map (fun x => (x.1.toNat, x.2))).map ticked = decoded := by
    rw [List.map_map]
    refine (List.map_congr_left ?_).trans (List.map_id decoded)
    rintro ⟨t, packets⟩ -
    exact congrArg (fun t => (t, packets)) (hself t)
  have hrun := strums_of_arrivals q (decoded.map (fun x => (x.1.toNat, x.2)))
  rw [hticked] at hrun
  rw [hrun]
  congr 1
  unfold arrivals flatten
  rw [List.flatMap_map]
  apply List.flatMap_congr
  rintro ⟨t, packets⟩ -
  rw [hself]

/-- **Whatever bytes come in, every strum `main` plays is a packet of the stream** with a right checksum, a chord and
    a `gz` over the threshold, in their order and each at most once. On the board, with the conversion `vcvt`, its
    velocity is 127. -/
theorem program_strums (p : Vector UInt8 imuFormat.size) (q : Queue) (passes : List (UInt32 × List UInt8)) :
    ((((emit Program.mainPass (Program.start p q) passes).filterMap Program.Output.main?).filterMap
        MainOutput.strum?).map chordAndVelocity).Sublist
      ((imuPackets (passes.flatMap Prod.snd)).filterMap Packet.played?) := by
  rw [emit_mainPass, strums_decoded, ← packets_stream p, ← map_snd_flatten]
  exact emit_detectArrival_sublist _ _

/-! ## The strums sent -/

/-- The packets of strums, as the loop on packets sees them. -/
def sentPackets (masks : List UInt8) : List Packet := (masks.flatMap Emisor.strumPackets).map packetOf

theorem sentPackets_cons (mask : UInt8) (masks : List UInt8) :
    sentPackets (mask :: masks) = sendPacket mask 500 :: sendPacket mask 0 :: sentPackets masks := by
  unfold sentPackets
  rw [List.flatMap_cons, List.map_append, map_strumPackets]
  rfl

theorem hasChord_sendPacket (mask : UInt8) (gz : ℚ) : (sendPacket mask gz).hasChord = hasChord mask := rfl

/-- Every strum of a chord counts for one peak. -/
theorem played_sentPackets (masks : List UInt8) :
    (sentPackets masks).filterMap Packet.played?
      = (masks.filter hasChord).map (fun mask => (chordOf mask, 127)) := by
  induction masks with
  | nil => rfl
  | cons mask masks ih =>
      have hpeak : (sendPacket mask 500).played? = if hasChord mask then some (chordOf mask, 127) else none := by
        unfold Packet.played?
        rw [above_peak, Bool.and_true]
        rfl
      have hrest : (sendPacket mask 0).played? = none := by
        unfold Packet.played?
        rw [above_rest, Bool.and_false]
        rfl
      rw [sentPackets_cons, List.filterMap_cons, List.filterMap_cons, hpeak, hrest, List.filter_cons, ih]
      cases hasChord mask <;> rfl

/-- What the detector lets through of packets of the strums `masks`, whichever arrive. -/
theorem played_of_sublist (d : Detector) {as : List (UInt32 × Packet)} {masks : List UInt8}
    (h : (as.map Prod.snd).Sublist (sentPackets masks)) :
    ((emit detectArrival d as).map chordAndVelocity).Sublist
      ((masks.filter hasChord).map (fun mask => (chordOf mask, 127))) := by
  rw [← played_sentPackets]
  exact (emit_detectArrival_sublist d as).trans (h.filterMap _)

/-- And for one rise. -/
theorem rises_sentPackets (masks : List UInt8) :
    Debounce.rises false (((sentPackets masks).filter Packet.hasChord).map Packet.above)
      = (masks.filter hasChord).length := by
  induction masks with
  | nil => rfl
  | cons mask masks ih =>
      rw [sentPackets_cons, List.filter_cons, List.filter_cons, List.filter_cons, hasChord_sendPacket,
        hasChord_sendPacket]
      cases hasChord mask with
      | false =>
          rw [if_neg Bool.false_ne_true, if_neg Bool.false_ne_true, if_neg Bool.false_ne_true]
          exact ih
      | true =>
          rw [if_pos rfl, if_pos rfl, if_pos rfl, List.map_cons, List.map_cons, above_peak, above_rest,
            Debounce.rises, Debounce.rises, ih, List.length_cons]
          show 1 + (0 + (masks.filter hasChord).length) = (masks.filter hasChord).length + 1
          omega

/-! ## Runs of the whole test -/

namespace System

open Relay

/-- The packets `main` has processed, as the loop on packets sees them. -/
def State.arrivals (s : State) : List (UInt32 × Packet) := s.received.map (fun a => (a.1, packetOf a.2))

/-- Nothing is on its way. -/
structure State.Drained (s : State) : Prop where
  toSend : s.toSend = []
  air : s.air = []
  slot : s.receptora.hasMsg = false
  uart : s.uart = []

/-- The packets accepted are those that the loop on packets is given. -/
theorem arrivals_receivedIn (rx : Program.Rx) (passes : List ByteStep) :
    (receivedIn rx passes).map (fun a => (a.1, packetOf a.2)) = flatten (emit decodePass rx passes) := by
  induction passes generalizing rx with
  | nil => rfl
  | cons x passes ih =>
      have hpacket : (fun e => (packet? e).map packetOf) = Program.RxEvent.packet? := by
        funext e
        cases e <;> rfl
      have hpass : (accepted rx x.1 x.2).map (fun a => (a.1, packetOf a.2))
          = (emit decodeByte rx x.2).map (fun m => (x.1, m)) := by
        unfold accepted
        rw [emit_decodeByte, ← hpacket, ← List.map_filterMap, List.map_map, List.map_map]
        rfl
      have hsplit : emit decodePass rx (x :: passes)
          = (x.1, emit decodeByte rx x.2) :: emit decodePass (finish decodeByte rx x.2) passes := rfl
      rw [receivedIn, List.map_append, hpass, ih, hsplit, flatten, flatten, List.flatMap_cons]
      rfl

/-- **The strums played are what the detector makes of the packets accepted.** -/
theorem strums_eq {p : Vector UInt8 imuFormat.size} {q : Queue} {passes : List ByteStep} {s : State}
    {r : Relay.State ImuMessage UInt8} (h : View p q passes s r) :
    s.strums = emit detectArrival Detector.start s.arrivals := by
  have hout : s.out.filterMap Program.Output.main?
      = emit mainPass (mainStart q) (emit decodePass (Buffer.start p) passes) := by
    rw [h.out]
    exact emit_mainPass p q passes
  have harrivals : s.arrivals = flatten (emit decodePass (Buffer.start p) passes) := by
    unfold State.arrivals
    rw [h.received]
    exact arrivals_receivedIn _ passes
  unfold State.strums
  rw [hout, harrivals, strums_decoded]

section Runs

variable (strum : Bool × UInt32) (chord : Vector (Bool × UInt32) 3) (p : Vector UInt8 imuFormat.size) (q : Queue)
  {acts : List Action} {s : State}

/-- What `main` has processed are some of the packets of the strums; when nothing is on its way, all but those lost. -/
theorem packets_delivered (h : run (start strum chord p q) acts = some s) :
    (s.arrivals.map Prod.snd).Sublist (sentPackets s.masks)
      ∧ s.strums = emit detectArrival Detector.start s.arrivals
      ∧ (s.Drained → s.arrivals.length + s.lost = (sentPackets s.masks).length) := by
  obtain ⟨acts', r, passes, hrun, hview⟩ := system_simulates strum chord p q h
  obtain ⟨onLine, hr⟩ := accounted_run hrun
  have hreceived := received_eq hview hr
  have harrivals : s.arrivals.map Prod.snd = r.accepted.map packetOf := by
    rw [← hreceived, State.arrivals, List.map_map, List.map_map]
    rfl
  refine ⟨?_, strums_eq hview, ?_⟩
  · rw [harrivals, sentPackets, ← hview.sent]
    exact ((accepted_sublist hrun).trans (List.sublist_append_left _ _)).map packetOf
  · intro hdrained
    have hslot : r.slot = none := by
      rw [hview.slot, Receptor.Globals.slot, hdrained.slot]
      rfl
    have hlength := length_accepted hrun (hview.link.trans hdrained.air) hslot (hview.line.trans hdrained.uart)
    have hsent := hview.sent
    rw [hdrained.toSend, List.append_nil] at hsent
    have hcount := congrArg List.length harrivals
    rw [List.length_map, List.length_map] at hcount
    rw [hcount, ← hview.lost, hlength, sentPackets, List.length_map, hsent]

/-- **What is played was strummed**: the chords played are, in any run, a sublist of the chords of the strums sent, each
    with the velocity 127. -/
theorem strums_played (h : run (start strum chord p q) acts = some s) :
    (s.strums.map chordAndVelocity).Sublist ((s.masks.filter hasChord).map (fun mask => (chordOf mask, 127))) := by
  obtain ⟨hsublist, hstrums, -⟩ := packets_delivered strum chord p q h
  rw [hstrums]
  exact played_of_sublist _ hsublist

/-- **No major chord is ever played.** -/
theorem strums_minor (h : run (start strum chord p q) acts = some s) :
    ∀ c ∈ s.strums, c.1.tipo = chordMinor ∧ c.2.1 = 127 := by
  obtain ⟨hsublist, hstrums, -⟩ := packets_delivered strum chord p q h
  rw [hstrums]
  intro c hc
  have hmem := (played_of_sublist _ hsublist).subset (List.mem_map_of_mem hc)
  obtain ⟨mask, hmask, hplayed⟩ := List.mem_map.mp hmem
  obtain ⟨hchord, hvelocity⟩ := Prod.mk.inj hplayed
  refine ⟨?_, hvelocity.symm⟩
  rw [show c.1 = chordOf mask from hchord.symm]
  exact chordOf_minor mask (of_decide_eq_true (List.mem_filter.mp hmask).2)

/-- **Every packet that is lost costs at most one strum**, once nothing is on its way and where the peaks were processed
    more than the cooldown apart, and more than the cooldown after 0; and if no packet is lost, every strum of a chord has
    been played. -/
theorem strums_missed (h : run (start strum chord p q) acts = some s) (hdrained : s.Drained)
    (hapart : (0 :: peakReadings s.arrivals).Pairwise (fun t t' => strumCooldown < t' - t)) :
    (s.masks.filter hasChord).length ≤ s.strums.length + s.lost
      ∧ (s.lost = 0 →
          s.strums.map chordAndVelocity = (s.masks.filter hasChord).map (fun mask => (chordOf mask, 127))) := by
  obtain ⟨hsublist, hstrums, hlength⟩ := packets_delivered strum chord p q h
  have hcount : (s.masks.filter hasChord).length ≤ s.strums.length + s.lost := by
    have hplayed := @length_emit_detectArrival Detector.start s.arrivals hapart
    have hrises := Debounce.rises_le_of_sublist ((hsublist.filter Packet.hasChord).map Packet.above) false false
    rw [rises_sentPackets, List.length_map, List.length_map] at hrises
    have hfew := hsublist.le_countP Packet.hasChord
    rw [List.countP_eq_length_filter, List.countP_eq_length_filter, List.length_map] at hfew
    rw [hstrums, hplayed]
    have hall := hlength hdrained
    have habove : Detector.start.above = false := rfl
    rw [habove]
    simp only [Bool.not_false, Bool.and_true, Bool.false_eq_true, if_false] at hrises
    omega
  refine ⟨hcount, fun hlost => ?_⟩
  have hplayed := played_of_sublist Detector.start hsublist
  rw [← hstrums] at hplayed
  apply hplayed.eq_of_length_le
  rw [List.length_map, List.length_map]
  omega

end Runs

/-- The test just switched on, no button pressed. -/
def fresh : State :=
  start (true, 0) (.replicate 3 (true, 0)) (.replicate imuFormat.size 0) (.replicate qSize (eventOf .evOn 0 0 0 0))

/-- With B1 down, STRUM has a level at `now` and still has it 30 ms later. -/
def strumLevel (now : UInt32) (rawStrum : Bool) : List Action :=
  [.emisor ⟨now, Emisor.b1Down, rawStrum, Emisor.b1Down⟩, .emisor ⟨now + 30, Emisor.b1Down, rawStrum, Emisor.b1Down⟩]

/-- The two packets of a strum arrive. -/
def wholeStrum : List Action := [.espNowSend, .deliver, .receptora, .espNowSend, .deliver, .receptora, .main 1040 62]

/-- The first is lost. -/
def peakLost : List Action := [.espNowSend, .drop 0, .espNowSend, .deliver, .receptora, .main 1240 31]

/-- Two strums, the peak of the second of which is lost. -/
def twoStrums : List Action :=
  strumLevel 1000 false ++ wholeStrum ++ strumLevel 1060 true ++ strumLevel 1200 false ++ peakLost

/-- What is left on the links, what has been sent, lost and accepted, and what has been played. -/
structure Summary where
  toSend : List ImuMessage
  air : List ImuMessage
  hasMsg : Bool
  uart : List UInt8
  masks : List UInt8
  lost : Nat
  received : List (UInt32 × ImuMessage)
  played : List (ButtonChord × UInt8)
deriving DecidableEq

def State.summary (s : State) : Summary :=
  ⟨s.toSend, s.air, s.receptora.hasMsg, s.uart, s.masks, s.lost, s.received, s.strums.map chordAndVelocity⟩

theorem run_twoStrums : ∃ s, run fresh twoStrums = some s ∧ s.Drained ∧ s.masks = [2, 2] ∧ s.lost = 1
    ∧ s.received = [(1040, Emisor.sendPacket default 2 Emisor.gzPico), (1040, Emisor.sendPacket default 2 Emisor.cero),
        (1240, Emisor.sendPacket default 2 Emisor.cero)]
    ∧ s.strums.map chordAndVelocity = [(chordOf 2, 127)] := by
  have hrun : (run fresh twoStrums).map State.summary
      = some ⟨[], [], false, [], [2, 2], 1, [(1040, Emisor.sendPacket default 2 Emisor.gzPico),
          (1040, Emisor.sendPacket default 2 Emisor.cero), (1240, Emisor.sendPacket default 2 Emisor.cero)],
          [(chordOf 2, 127)]⟩ := by
    decide +kernel
  obtain ⟨s, hs, hsummary⟩ := Option.map_eq_some_iff.mp hrun
  exact ⟨s, hs,
    ⟨congrArg Summary.toSend hsummary, congrArg Summary.air hsummary, congrArg Summary.hasMsg hsummary,
      congrArg Summary.uart hsummary⟩,
    congrArg Summary.masks hsummary, congrArg Summary.lost hsummary, congrArg Summary.received hsummary,
    congrArg Summary.played hsummary⟩

/-- What has been played is the first of the two. -/
theorem first_strum_played : ∃ s, run fresh twoStrums = some s ∧ (s.strums.map chordAndVelocity).length = 1
    ∧ (s.strums.map chordAndVelocity).Sublist ((s.masks.filter hasChord).map (fun mask => (chordOf mask, 127))) := by
  obtain ⟨s, hs, -, -, -, -, hstrums⟩ := run_twoStrums
  exact ⟨s, hs, congrArg List.length hstrums, strums_played _ _ _ _ hs⟩

/-- It is DO menor. -/
theorem first_strum_minor : ∃ s, run fresh twoStrums = some s ∧ s.strums ≠ []
    ∧ ∀ c ∈ s.strums, c.1.tipo = chordMinor ∧ c.2.1 = 127 := by
  obtain ⟨s, hs, -, -, -, -, hstrums⟩ := run_twoStrums
  refine ⟨s, hs, ?_, strums_minor _ _ _ _ hs⟩
  rintro hnil
  rw [hnil] at hstrums
  exact List.cons_ne_nil _ _ hstrums.symm

/-- And one is missing, as one packet is. -/
theorem second_strum_missed : ∃ s, run fresh twoStrums = some s ∧ s.lost = 1 ∧ s.Drained
    ∧ (s.masks.filter hasChord).length = 2 ∧ (s.masks.filter hasChord).length ≤ s.strums.length + s.lost := by
  obtain ⟨s, hs, hdrained, hmasks, hlost, hreceived, -⟩ := run_twoStrums
  have hpeaks : peakReadings s.arrivals = [1040] := by
    have harrivals : s.arrivals = [(1040, sendPacket 2 500), (1040, sendPacket 2 0), (1240, sendPacket 2 0)] := by
      rw [State.arrivals, hreceived, List.map_cons, List.map_cons, List.map_singleton, packetOf_sendPacket,
        packetOf_sendPacket, gzValue_gzPico, gzValue_cero]
    rw [harrivals, peakReadings_cons, peakReadings_cons, peakReadings_cons, above_peak, above_rest,
      hasChord_sendPacket]
    rfl
  refine ⟨s, hs, hlost, hdrained, ?_, (strums_missed _ _ _ _ hs hdrained ?_).1⟩
  · rw [hmasks]
    rfl
  · rw [hpeaks]
    decide

end System

end GuitarraMidi.TestLatency
