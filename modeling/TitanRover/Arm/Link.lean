import TitanRover.Arm.Leftovers
import TitanRover.Leap.Sent

/-! # From the sketch to the arm

The two programs together: `leap_motion_udp.pde` sends, the network loses, repeats and reorders, and
`_2DOF_leap_motion.ino` receives, over whatever its buffers hold. A message is read as it was meant
exactly when neither a joint number nor the wrist number is zero. -/
namespace TitanRover.Arm
open Foundations Foundations.Delimited
set_option autoImplicit false

def word (z : ℤ) : Int16 := BitVec.ofInt 16 z

/-- An `int` can hold the number. -/
def Fits (z : ℤ) : Prop := -2 ^ 15 ≤ z ∧ z < 2 ^ 15

theorem word_toInt {z : ℤ} (h : Fits z) : (word z).toInt = z :=
  BitVec.toInt_ofInt_eq_self (by decide) h.1 h.2

theorem word_eq_zero_iff {z : ℤ} (h : Fits z) : word z = 0 ↔ z = 0 := by
  rw [← BitVec.toInt_inj, word_toInt h]
  rfl

theorem fits_near {z c : ℤ} {d : ℤ} (h : |z - c| ≤ d) (hlow : -2 ^ 15 ≤ c - d)
    (hhigh : c + d < 2 ^ 15) : Fits z := by
  obtain ⟨hl, hr⟩ := abs_le.mp h
  unfold Fits
  omega

/-- A message that the arm reads as it was meant. -/
structure Drivable (m : Leap.Message) : Prop where
  joint : ∀ j, Fits (m.joint j) ∧ m.joint j ≠ 0
  wrist : Fits m.wrist ∧ m.wrist ≠ 0

def fieldsOf (m : Leap.Message) : Fields where
  usAJNT1 := word m.joint1PWM
  usAJNT2 := word m.joint2PWM
  usWRIST := word m.wrist
  usGRIPPER := word m.gripper
  wristOrientation := word m.wristOrientation
  shoulderOrientation := word m.shoulderOrientation
  lazySusanOrientation := word m.lazySusanOrientation

def words (m : Leap.Message) : List Int16 :=
  [word m.joint1PWM, word m.joint2PWM, word m.wrist, word m.wristOrientation,
    word m.shoulderOrientation, word m.lazySusanOrientation, word m.gripper]

/-- What every message of the sketch is known to be. -/
structure FromSketch (m : Leap.Message) : Prop where
  wristOrientation : Leap.IsOrientation m.wristOrientation
  shoulderOrientation : Leap.IsOrientation m.shoulderOrientation
  lazySusanOrientation : Leap.IsOrientation m.lazySusanOrientation
  gripper : |m.gripper - Leap.servoCentre| ≤ Leap.band

section Reading
variable {m : Leap.Message}

theorem fits_orientation {z : ℤ} (h : Leap.IsOrientation z) : Fits z := by
  unfold Leap.IsOrientation at h
  unfold Fits
  omega

theorem word_orientation {z : ℤ} (h : Leap.IsOrientation z) : word z ≠ -1 := by
  intro hw
  have hz := word_toInt (fits_orientation h)
  rw [hw] at hz
  have hminus : (-1 : Int16).toInt = -1 := by decide
  unfold Leap.IsOrientation at h
  omega

theorem FromSketch.gripper_fits (h : FromSketch m) : Fits m.gripper :=
  fits_near h.gripper (by decide) (by decide)

theorem FromSketch.gripper_ne (h : FromSketch m) : word m.gripper ≠ 0 := by
  rw [Ne, word_eq_zero_iff h.gripper_fits]
  intro hz
  have hnear := h.gripper
  rw [hz] at hnear
  exact absurd hnear (by decide)

/-- The text of a message of `int`s is that of its words. -/
theorem text_eq (h : FromSketch m) (hj : ∀ j, Fits (m.joint j)) (hw : Fits m.wrist) :
    m.text = message (word m.joint1PWM) (word m.joint2PWM) (word m.wrist)
      (word m.wristOrientation) (word m.shoulderOrientation) (word m.lazySusanOrientation)
      (word m.gripper) := by
  have h1 : (word m.joint1PWM).toInt = m.joint1PWM := word_toInt (hj .one)
  have h2 : (word m.joint2PWM).toInt = m.joint2PWM := word_toInt (hj .two)
  rw [message, h1, h2, word_toInt hw, word_toInt (fits_orientation h.wristOrientation),
    word_toInt (fits_orientation h.shoulderOrientation),
    word_toInt (fits_orientation h.lazySusanOrientation), word_toInt h.gripper_fits]

end Reading

/-! ## Reading a message -/

/-- `Udp.write(packetBuffer)`, which ends at the terminator. -/
def reply (packetBuffer : PacketBuffer) : List Byte := packetBuffer.toList.takeWhile (· ≠ 0)

theorem zero_not_mem_integer (z : ℤ) : (0 : Byte) ∉ Decimal.integer z := by
  intro h
  rcases Decimal.isDigit_or_minus h with hd | hm
  · exact absurd hd (by decide)
  · exact absurd hm (by decide)

theorem zero_not_mem_text (m : Leap.Message) : (0 : Byte) ∉ m.text := by
  simp [Leap.Message.text, Leap.str, Leap.separator]
  exact ⟨zero_not_mem_integer _, zero_not_mem_integer _, zero_not_mem_integer _,
    zero_not_mem_integer _, zero_not_mem_integer _, zero_not_mem_integer _, zero_not_mem_integer _⟩

theorem text_pos (m : Leap.Message) : 0 < m.text.length := by
  simp [Leap.Message.text, Leap.separator]

theorem reply_text {buffer : PacketBuffer} {temp : Temp} {m : Leap.Message} {r : Received}
    (h : receive buffer temp m.text = some r) : reply r.packetBuffer = m.text := by
  obtain ⟨-, hbuffer⟩ := receive_buffer (text_pos m) h
  rw [reply, hbuffer, contents, List.takeWhile_append_of_pos]
  · simp
  · intro b hb
    have hne : b ≠ 0 := fun he => zero_not_mem_text m (he ▸ hb)
    simpa using hne

theorem receive_text {m : Leap.Message} (h : FromSketch m) (hd : Drivable m)
    (packetBuffer : PacketBuffer) (temp : Temp) :
    ∃ r, receive packetBuffer temp m.text = some r ∧ r.fields = fieldsOf m ∧
      reply r.packetBuffer = m.text := by
  have htext := text_eq h (fun j => (hd.joint j).1) hd.wrist.1
  have h1 : word m.joint1PWM ≠ 0 := (word_eq_zero_iff (hd.joint .one).1).not.mpr (hd.joint .one).2
  have h2 : word m.joint2PWM ≠ 0 := (word_eq_zero_iff (hd.joint .two).1).not.mpr (hd.joint .two).2
  have h3 : word m.wrist ≠ 0 := (word_eq_zero_iff hd.wrist.1).not.mpr hd.wrist.2
  obtain ⟨r, hr, hfields, -⟩ := receive_front (word m.gripper) h1 h2 h3
    (word_orientation h.wristOrientation) (word_orientation h.shoulderOrientation)
    (word_orientation h.lazySusanOrientation) packetBuffer temp
  rw [← htext] at hr
  exact ⟨r, hr, hfields, reply_text hr⟩

/-! ## Zeros in a message -/

theorem message_words (j1 j2 w wo so ls g : Int16) : message j1 j2 w wo so ls g =
    ([j1, j2, w, wo, so, ls, g].map number).flatMap (· ++ [slash]) := by
  simp [message, Leap.Message.text, Leap.str, Leap.separator, number, slash]

theorem number_fits (ws : List Int16) :
    ∀ t ∈ ws.map number, format.delimiter ∉ t ∧ t.length < format.capacity := by
  intro t ht
  obtain ⟨v, -, rfl⟩ := List.mem_map.mp ht
  have hlen := number_length v
  exact ⟨slash_not_mem_number v, by simp only [format]; omega⟩

theorem run_words (ws : List Int16) :
    format.run ⟨[], []⟩ ((ws.map number).flatMap (· ++ [slash])) =
      some ⟨format.read [] (ws.map number), []⟩ :=
  run_texts format [] (number_fits ws)

theorem closes_front {k : ℕ} (hk : k < 3) (v : Int16) : format.closes k v = true ↔ v ≠ 0 := by
  have h6 : k ≠ 6 := by omega
  have hmark : sentinel k = 0 := if_neg (by omega)
  simp [format, hmark, h6]

theorem read_nonzero {pre : List Int16} (hlen : pre.length ≤ 3) (hpre : ∀ v ∈ pre, v ≠ 0) :
    format.read [] (pre.map number) = pre := by
  have hvalues : (pre.map number).map format.value = pre := by
    rw [List.map_map]
    exact (List.map_congr_left (fun v _ => parse_number v)).trans (List.map_id pre)
  have hfields : format.run ⟨[], []⟩ ((pre.map number).flatMap (· ++ [format.delimiter])) =
      some ⟨[] ++ (pre.map number).map format.value, []⟩ := by
    apply run_fields format (number_fits pre)
    · intro i hi
      rw [List.length_map] at hi
      have hv : pre[i] ≠ 0 := hpre _ (List.getElem_mem hi)
      rw [List.length_nil, Nat.zero_add, List.getElem_map, closes_front (by omega)]
      simpa [format, parse_number] using hv
    · simp only [List.length_nil, List.length_map, format]
      omega
  rw [hvalues, List.nil_append] at hfields
  have hread := (run_texts format [] (number_fits pre)).symm.trans hfields
  exact (State.mk.inj (Option.some.inj hread)).1

/-- A nonzero last number fills one slot more than the nonzero ones that lead. -/
theorem lt_read_words {pre mid : List Int16} {g : Int16} (hlen : pre.length < 3)
    (hpre : ∀ v ∈ pre, v ≠ 0) (hg : g ≠ 0) :
    pre.length < (format.read [] ((pre ++ mid ++ [g]).map number)).length := by
  rw [List.map_append, List.map_singleton]
  apply lt_read_length
  · rw [List.map_append, read_append, read_nonzero hlen.le hpre]
    exact (prefix_read format pre _).length_le
  · simp only [format]
    omega
  · rw [closes_front hlen]
    simpa [format, parse_number] using hg

/-- A filled slot of the first three does not hold zero. -/
theorem slot_ne_zero {bs : List Byte} {σ : State Byte Int16}
    (hrun : format.run ⟨[], []⟩ bs = some σ) {k : ℕ} (hk : k < 3) (hlen : k < σ.stored.length) :
    σ.stored.getD k 0 ≠ 0 := by
  have hsound := sound_run format (s := ⟨[], []⟩) (fun i hi => absurd hi (Nat.not_lt_zero i)) hrun
  rw [List.getD_eq_getElem _ _ hlen]
  exact (closes_front hk _).mp (hsound k hlen)

/-- A zero that one of the first three slots would take fills no slot. -/
theorem read_zero {pre post : List Int16} (hlen : pre.length < 3) :
    format.read [] ((pre ++ 0 :: post).map number) = format.read [] ((pre ++ post).map number) := by
  rw [List.map_append, List.map_append, List.map_cons, read_append, read_append, read_cons]
  have hst := read_length_le format [] (pre.map number)
  rw [List.length_map, List.length_nil, Nat.zero_add] at hst
  have hopen : format.closes (format.read [] (pre.map number)).length
      (format.value (number 0)) ≠ true := by
    rw [Ne, closes_front (by omega)]
    exact not_not.mpr (parse_number 0)
  rw [Format.close, if_neg hopen, ite_self]

/-! ## Which messages are read -/

section Zeros
variable {m : Leap.Message}

theorem text_words (h : FromSketch m) (hj : ∀ j, Fits (m.joint j)) (hw : Fits m.wrist) :
    m.text = ((words m).map number).flatMap (· ++ [slash]) :=
  (text_eq h hj hw).trans (message_words _ _ _ _ _ _ _)

theorem run_sent (h : FromSketch m) (hj : ∀ j, Fits (m.joint j)) (hw : Fits m.wrist) :
    ∃ st, st = format.read [] ((words m).map number) ∧
      format.run ⟨[], []⟩ m.text = some ⟨st, []⟩ := by
  refine ⟨_, rfl, ?_⟩
  rw [text_words h hj hw]
  exact run_words (words m)

theorem text_length (h : FromSketch m) (hj : ∀ j, Fits (m.joint j)) (hw : Fits m.wrist) :
    m.text.length ≤ 49 := by
  have hfront := front_length (word m.joint1PWM) (word m.joint2PWM) (word m.wrist)
    (word m.wristOrientation) (word m.shoulderOrientation) (word m.lazySusanOrientation)
    (word m.gripper)
  rw [text_eq h hj hw, message_eq, List.length_append, List.length_singleton]
  omega

/-- The first of the joint numbers and the wrist number that is zero. -/
theorem first_zero (hj : ∀ j, Fits (m.joint j)) (hw : Fits m.wrist) (hnot : ¬ Drivable m) :
    ∃ pre post : List Int16, pre.length < 3 ∧ (∀ v ∈ pre, v ≠ 0) ∧
      words m = pre ++ 0 :: post ++ [word m.gripper] := by
  by_cases h1 : word m.joint1PWM = 0
  · refine ⟨[], [word m.joint2PWM, word m.wrist, word m.wristOrientation,
      word m.shoulderOrientation, word m.lazySusanOrientation], by simp, by simp, ?_⟩
    simp [words, h1]
  · by_cases h2 : word m.joint2PWM = 0
    · refine ⟨[word m.joint1PWM], [word m.wrist, word m.wristOrientation,
        word m.shoulderOrientation, word m.lazySusanOrientation], by simp, by simpa using h1, ?_⟩
      simp [words, h2]
    · have h3 : word m.wrist = 0 := by
        by_contra h3
        refine hnot ⟨fun j => ⟨hj j, ?_⟩, hw, (word_eq_zero_iff hw).not.mp h3⟩
        cases j with
        | one => exact (word_eq_zero_iff (hj .one)).not.mp h1
        | two => exact (word_eq_zero_iff (hj .two)).not.mp h2
      refine ⟨[word m.joint1PWM, word m.joint2PWM], [word m.wristOrientation,
        word m.shoulderOrientation, word m.lazySusanOrientation], by simp, by simpa using ⟨h1, h2⟩, ?_⟩
      simp [words, h3]

theorem ofStored_words {st : List Int16} (h : Fields.ofStored st = fieldsOf m) {k : ℕ}
    (hk : k < 3) : st.getD k 0 = (words m).getD k 0 := by
  interval_cases k
  · exact congrArg Fields.usAJNT1 h
  · exact congrArg Fields.usAJNT2 h
  · exact congrArg Fields.usWRIST h

theorem not_decoded (h : FromSketch m) (hj : ∀ j, Fits (m.joint j)) (hw : Fits m.wrist)
    (hnot : ¬ Drivable m) {packetBuffer : PacketBuffer} {temp : Temp} {r : Received}
    (hr : receive packetBuffer temp m.text = some r) : r.fields ≠ fieldsOf m := by
  obtain ⟨pre, post, hlen, hpre, hwords⟩ := first_zero hj hw hnot
  have hsize := text_length h hj hw
  have hfields := receive_fields packetBuffer temp m.text (text_pos m) (by omega)
  rw [hr, Option.map_some] at hfields
  obtain ⟨σ, hσ, hstored⟩ := Option.map_eq_some_iff.mp hfields.symm
  intro hmeant
  rw [hmeant] at hstored
  have hslot : pre.length < σ.stored.length := by
    obtain ⟨st, hst, htext⟩ := run_sent h hj hw
    have hrun := hσ
    rw [contents, run_append, htext, Option.bind_some] at hrun
    have hfilled : pre.length < st.length := by
      rw [hst, hwords]
      exact lt_read_words hlen hpre h.gripper_ne
    exact hfilled.trans_le (prefix_run format hrun).length_le
  refine slot_ne_zero hσ hlen hslot ?_
  rw [ofStored_words hstored hlen, hwords]
  simp

theorem decoded_iff (h : FromSketch m) (hj : ∀ j, Fits (m.joint j)) (hw : Fits m.wrist)
    (packetBuffer : PacketBuffer) (temp : Temp) :
    (∃ r, receive packetBuffer temp m.text = some r ∧ r.fields = fieldsOf m) ↔ Drivable m := by
  constructor
  · rintro ⟨r, hr, hfields⟩
    by_contra hnot
    exact not_decoded h hj hw hnot hr hfields
  · intro hd
    obtain ⟨r, hr, hfields, -⟩ := receive_text h hd packetBuffer temp
    exact ⟨r, hr, hfields⟩

/-- Before any other message, the others make the scan leave `temp`. -/
theorem fresh_receive_iff (h : FromSketch m) (hj : ∀ j, Fits (m.joint j)) (hw : Fits m.wrist)
    (temp : Temp) : (receive (Vector.replicate 255 0) temp m.text).isSome ↔ Drivable m := by
  constructor
  · intro hsome
    by_contra hnot
    obtain ⟨pre, post, hlen, hpre, hwords⟩ := first_zero hj hw hnot
    have hsize := text_length h hj hw
    have hpost : pre.length + post.length = 5 := by
      have hseven := congrArg List.length hwords
      simp [words] at hseven
      omega
    obtain ⟨st, hst, htext⟩ := run_sent h hj hw
    have hopen : ¬ format.Full st := by
      rw [hst, hwords, List.append_assoc, List.cons_append, read_zero hlen, full_iff]
      have hread := read_length_le format [] ((pre ++ (post ++ [word m.gripper])).map number)
      simp only [List.length_map, List.length_append, List.length_nil, List.length_cons] at hread
      omega
    have hcontents : contents (Vector.replicate 255 0) m.text =
        m.text ++ List.replicate (255 - m.text.length) 0 := by
      have hrest : 255 - m.text.length = (255 - (m.text.length + 1)) + 1 := by omega
      rw [contents, Vector.toList_replicate, List.drop_replicate, hrest, List.replicate_succ]
    have hrun : format.run ⟨[], []⟩ (contents (Vector.replicate 255 0) m.text) = none := by
      rw [hcontents, run_append, htext, Option.bind_some]
      apply run_overrun format (s := ⟨st, []⟩) hopen
      · rw [List.mem_replicate]
        exact fun hm => absurd hm.2 (by decide)
      · exact Nat.zero_le _
      · rw [List.length_replicate, List.length_nil]
        change 20 < 0 + (255 - m.text.length)
        omega
    have hfields := receive_fields (Vector.replicate 255 0) temp m.text (text_pos m) (by omega)
    rw [hrun] at hfields
    rw [Option.map_eq_none_iff.mp hfields] at hsome
    cases hsome
  · intro hd
    obtain ⟨r, hr, -⟩ := receive_text h hd (Vector.replicate 255 0) temp
    rw [hr]
    rfl

end Zeros

/-! ## The two runs -/

/-- The arm between iterations, with the commands it issued last. -/
structure Machine where
  packetBuffer : PacketBuffer
  commands : Option Commands

def powerUp : Machine where
  packetBuffer := Vector.replicate 255 0
  commands := none

def iterate (s : Machine) (temp : Temp) (packet : List Byte) : Option Machine :=
  (loop s.packetBuffer temp packet).map (fun r =>
    { packetBuffer := r.1, commands := r.2 <|> s.commands })

def Commands.joint (c : Commands) : Leap.Joint → BitVec 16
  | .one => c.armJoint1
  | .two => c.armJoint2

theorem iterate_none (s : Machine) (temp : Temp) : iterate s temp [] = some s := by
  cases s
  rfl

theorem iterate_text {m : Leap.Message} (h : FromSketch m) (hd : Drivable m) (s : Machine)
    (temp : Temp) :
    ∃ s', iterate s temp m.text = some s' ∧ s'.commands = some (fieldsOf m).commands ∧
      reply s'.packetBuffer = m.text := by
  obtain ⟨r, hr, hfields, hreply⟩ := receive_text h hd s.packetBuffer temp
  have hpos : ¬ m.text.length = 0 := (text_pos m).ne'
  refine ⟨⟨r.packetBuffer, some (fieldsOf m).commands⟩, ?_, rfl, hreply⟩
  rw [iterate, loop, if_neg hpos, hr, ← hfields]
  rfl

section Link
variable {R : Type*} [Field R] [LinearOrder R] [FloorRing R] (env : Leap.Env R)
variable (events : ℕ → Leap.Event R)

section Sketch
variable [IsStrictOrderedRing R] {events} {n : ℕ} {m : Leap.Message}

theorem sent_fromSketch (h : Leap.sent env events n = some m) : FromSketch m := by
  obtain ⟨hw, hs, hl⟩ := Leap.sent_isOrientation env h
  exact ⟨hw, hs, hl, Leap.sent_gripper_near env h⟩

/-- The arm reads what is sent before the joints were nudged and the wrist was turned too often. -/
theorem sent_drivable (h : Leap.sent env events n = some m)
    (hnudge : ∀ j, Leap.framesWith env events (Leap.Nudged j) (n + 1) <
      Leap.servoCentre - Leap.band)
    (hturn : Leap.slowStep * Leap.framesWith env events Leap.WristUnlocked (n + 1) <
      Leap.servoCentre) : Drivable m := by
  have hj := fun j => abs_le.mp (Leap.sent_joint_near env h j)
  have hw := abs_le.mp (Leap.sent_wrist_near env h)
  simp only [Leap.servoCentre, Leap.band, Leap.slowStep] at hj hw hnudge hturn
  refine ⟨fun j => ?_, ?_⟩
  · have hnear := hj j
    have hfew := hnudge j
    unfold Fits
    omega
  · unfold Fits
    omega

/-- A sent message is read as it was meant exactly when it has no zero joint or wrist number,
whatever the receiver's buffers hold, and the others make a fresh receiver leave `temp`. -/
theorem sent_decoded_iff (h : Leap.sent env events n = some m) (hj : ∀ j, Fits (m.joint j))
    (hw : Fits m.wrist) (packetBuffer : PacketBuffer) (temp : Temp) :
    ((∃ r, receive packetBuffer temp m.text = some r ∧ r.fields = fieldsOf m) ↔ Drivable m) ∧
      ((receive (Vector.replicate 255 0) temp m.text).isSome ↔ Drivable m) :=
  ⟨decoded_iff (sent_fromSketch env h) hj hw packetBuffer temp,
    fresh_receive_iff (sent_fromSketch env h) hj hw temp⟩

/-- The wrist turned with a held key for 500 frames: its number is zero. -/
theorem sent_decoded_iff_turned : ∃ m, Leap.sent Leap.realEnv Leap.wristHeld 501 = some m ∧
    ¬ Drivable m ∧
    ((∃ r, receive (Vector.replicate 255 slash) (Vector.replicate 20 0) m.text = some r ∧
      r.fields = fieldsOf m) ↔ Drivable m) ∧
    ((receive (Vector.replicate 255 0) (Vector.replicate 20 0) m.text).isSome ↔ Drivable m) := by
  have hsent : Leap.sent Leap.realEnv Leap.wristHeld 501 =
      some (Leap.draw Leap.realEnv (Leap.varsAt Leap.realEnv Leap.wristHeld 501) Leap.rolled).2 := rfl
  have hframe := Leap.frame_wrist Leap.realEnv
    (Leap.varsAt_consistent Leap.realEnv Leap.wristHeld 501) Leap.rolled
  rw [Leap.wristMove_rolled (Leap.wristHeld_keys 499), Leap.wristHeld_wrist 499] at hframe
  have hzero : (Leap.draw Leap.realEnv (Leap.varsAt Leap.realEnv Leap.wristHeld 501)
      Leap.rolled).2.wrist = 0 := by
    change Leap.int (some (Leap.frame Leap.realEnv (Leap.varsAt Leap.realEnv Leap.wristHeld 501)
      Leap.rolled).wrist) = 0
    rw [hframe]
    norm_num [Leap.int, trunc]
  refine ⟨_, hsent, fun hd => hd.wrist.2 hzero, ?_⟩
  apply sent_decoded_iff Leap.realEnv hsent
  · intro j
    have hcount : Leap.framesWith Leap.realEnv Leap.wristHeld (Leap.Nudged j) (501 + 1) ≤ 502 :=
      Nat.count_le _
    have hnear := Leap.sent_joint_near Leap.realEnv hsent j
    simp only [Leap.servoCentre, Leap.band] at hnear
    exact fits_near hnear (by omega) (by omega)
  · rw [hzero]
    exact ⟨by decide, by decide⟩

end Sketch

/-- The hand is held at a reading and no key is pressed. -/
def holding (r : Leap.Reading ℝ) : ℕ → Leap.Event ℝ := fun _ => .frame r

theorem holding_keys (r : Leap.Reading ℝ) (n : ℕ) :
    (Leap.varsAt Leap.realEnv (holding r) n).toKeys = (Leap.init : Leap.Vars ℝ).toKeys := by
  induction n with
  | zero => rfl
  | succ n ih => exact (Leap.draw_keys Leap.realEnv _ r).trans ih

theorem framesWith_eq_zero {events : ℕ → Leap.Event ℝ} (P : Leap.Vars ℝ → Prop) [DecidablePred P]
    (h : ∀ n, ¬ P (Leap.varsAt Leap.realEnv events n)) (n : ℕ) :
    Leap.framesWith Leap.realEnv events P n = 0 := by
  rw [Leap.framesWith, Nat.count_iff_forall_not]
  exact fun k _ hk => h k hk.2

theorem holding_nudges (r : Leap.Reading ℝ) (j : Leap.Joint) (n : ℕ) :
    Leap.framesWith Leap.realEnv (holding r) (Leap.Nudged j) n = 0 := by
  apply framesWith_eq_zero
  intro k hnudged
  have hkeys := holding_keys r k
  cases j <;> simp [Leap.Nudged, Leap.Vars.increment, Leap.Vars.decrement, hkeys, Leap.init]
    at hnudged

theorem holding_drivable {r : Leap.Reading ℝ} {n : ℕ} {m : Leap.Message}
    (h : Leap.sent Leap.realEnv (holding r) n = some m) : Drivable m := by
  apply sent_drivable Leap.realEnv h
  · intro j
    rw [holding_nudges]
    decide
  · have hnot : ∀ k, ¬ Leap.WristUnlocked (Leap.varsAt Leap.realEnv (holding r) k) := by
      intro k hunlocked
      have honline := hunlocked.2.2
      rw [holding_keys r k] at honline
      cases honline
    rw [framesWith_eq_zero _ hnot]
    decide

def idle : ℕ → Leap.Event ℝ := holding Leap.rolled

variable (temps : ℕ → Temp) (arrivals : ℕ → Option ℕ)

/-- The message that iteration `k` of the arm finds: that of the event `arrivals k`, if it sent
one. -/
def arrived (k : ℕ) : Option Leap.Message := (arrivals k).bind (Leap.sent env events)

def packetAt (k : ℕ) : List Byte := ((arrived env events arrivals k).map Leap.Message.text).getD []

def machineAt (k : ℕ) : Option Machine :=
  Run.stateAt (fun s k => s.bind (iterate · (temps k) (packetAt env events arrivals k)))
    (some powerUp) id k

/-- The event whose message arrived last. -/
def lastArrival (k : ℕ) : Option ℕ :=
  Run.latest id (fun k => (arrived env events arrivals k).isSome = true) arrivals none k

def lastMessage (k : ℕ) : Option Leap.Message :=
  (lastArrival env events arrivals k).bind (Leap.sent env events)

theorem lastMessage_succ (k : ℕ) : lastMessage env events arrivals (k + 1) =
    (arrived env events arrivals k <|> lastMessage env events arrivals k) := by
  unfold lastMessage lastArrival
  rw [Run.latest]
  split_ifs with h
  · obtain ⟨m, hm⟩ := Option.isSome_iff_exists.mp h
    replace hm : arrived env events arrivals k = some m := hm
    rw [hm]
    exact hm
  · have hnone : arrived env events arrivals k = none := Option.not_isSome_iff_eq_none.mp h
    rw [hnone]
    rfl

theorem lastArrival_arrived (k : ℕ) {n : ℕ} (h : lastArrival env events arrivals k = some n) :
    ∃ i, arrivals i = some n ∧ (arrived env events arrivals i).isSome = true := by
  induction k with
  | zero => cases h
  | succ k ih =>
    rw [lastArrival, Run.latest] at h
    split_ifs at h with ha
    · exact ⟨k, h, ha⟩
    · exact ih h

/-- The arm holds the commands of the message that arrived last and has echoed it. -/
structure Follows (k : ℕ) (s : Machine) : Prop where
  commands : s.commands =
    (lastMessage env events arrivals k).map (fun m => (fieldsOf m).commands)
  echo : ∀ m, lastMessage env events arrivals k = some m → reply s.packetBuffer = m.text

variable [IsStrictOrderedRing R]

theorem machineAt_follows
    (hdrive : ∀ k m, arrived env events arrivals k = some m → Drivable m) (k : ℕ) :
    ∃ s, machineAt env events temps arrivals k = some s ∧ Follows env events arrivals k s := by
  apply Run.invariant _ (some powerUp) id
    (P := fun k o => ∃ s, o = some s ∧ Follows env events arrivals k s)
  · exact ⟨powerUp, rfl, rfl, fun m hm => by cases hm⟩
  · rintro k ⟨s, hs, hfollows⟩
    rw [hs, Option.bind_some, id]
    cases ha : arrived env events arrivals k with
    | none =>
      have hpacket : packetAt env events arrivals k = [] := by rw [packetAt, ha]; rfl
      have hlast : lastMessage env events arrivals (k + 1) = lastMessage env events arrivals k := by
        rw [lastMessage_succ, ha]
        rfl
      refine ⟨s, ?_, ?_, ?_⟩
      · rw [hpacket, iterate_none]
      · rw [hlast]
        exact hfollows.commands
      · rw [hlast]
        exact hfollows.echo
    | some m =>
      have hpacket : packetAt env events arrivals k = m.text := by rw [packetAt, ha]; rfl
      have hlast : lastMessage env events arrivals (k + 1) = some m := by
        rw [lastMessage_succ, ha]
        rfl
      obtain ⟨n, -, hn⟩ := Option.bind_eq_some_iff.mp ha
      obtain ⟨s', hs', hcommands, hreply⟩ :=
        iterate_text (sent_fromSketch env hn) (hdrive k m ha) s (temps k)
      refine ⟨s', ?_, ?_, ?_⟩
      · rw [hpacket, hs']
      · rw [hlast, hcommands]
        rfl
      · rw [hlast]
        rintro m' hm'
        cases hm'
        exact hreply

omit [IsStrictOrderedRing R] in
/-- A message sent with every key up has 0 for both I2C motors. -/
theorem commands_released {n : ℕ} {m : Leap.Message} (hm : Leap.sent env events n = some m)
    (hheld : Leap.heldKeys events n = ∅) :
    (fieldsOf m).commands.shoulder = 0 ∧ (fieldsOf m).commands.lazySusan = 0 := by
  have honly := Leap.varsAt_onlyHeld env events n
  rw [hheld] at honly
  have hoff := honly.allOff.motors
  obtain ⟨r, -, rfl⟩ := Leap.sent_frame env hm
  have hkeys : (Leap.frame env (Leap.varsAt env events n) r).toKeys =
      (Leap.varsAt env events n).toKeys := Leap.draw_keys env (Leap.varsAt env events n) r
  rw [← hkeys] at hoff
  have hshoulder : (Leap.frame env (Leap.varsAt env events n) r).shoulderOrientation = 0 :=
    hoff .shoulder
  have hlazy : (Leap.frame env (Leap.varsAt env events n) r).lazySusanOrientation = 0 :=
    hoff .lazySusan
  constructor
  · change (word (Leap.frame env (Leap.varsAt env events n) r).shoulderOrientation).setWidth 8 = 0
    rw [hshoulder]
    rfl
  · change (word (Leap.frame env (Leap.varsAt env events n) r).lazySusanOrientation).setWidth 8 = 0
    rw [hlazy]
    rfl

/-- Whatever arrives when, the arm stays within its arrays. After each iteration it holds the
commands of the message that arrived last and has echoed it, and the I2C motors have got 0 if that
message was sent with every key up. -/
theorem arm_follows
    (hdrive : ∀ k m, arrived env events arrivals k = some m → Drivable m) (k : ℕ) :
    ∃ s, machineAt env events temps arrivals k = some s ∧ Follows env events arrivals k s ∧
      ∀ n c, lastArrival env events arrivals k = some n → Leap.heldKeys events n = ∅ →
        s.commands = some c → c.shoulder = 0 ∧ c.lazySusan = 0 := by
  obtain ⟨s, hs, hfollows⟩ := machineAt_follows env events temps arrivals hdrive k
  refine ⟨s, hs, hfollows, fun n c hlast hheld hc => ?_⟩
  have hcommands := hfollows.commands
  rw [lastMessage, hlast, Option.bind_some, hc] at hcommands
  obtain ⟨m, hm, rfl⟩ := Option.map_eq_some_iff.mp hcommands.symm
  exact commands_released env events hm hheld

/-- The fourth message overtakes the second one, and the others are lost. -/
def overtaking : ℕ → Option ℕ
  | 0 => some 3
  | 1 => some 1
  | _ => none

theorem overtaking_drivable (k : ℕ) (m : Leap.Message)
    (h : arrived Leap.realEnv idle overtaking k = some m) : Drivable m := by
  obtain ⟨n, -, hn⟩ := Option.bind_eq_some_iff.mp h
  exact holding_drivable hn

theorem arm_follows_overtaking :
    ∃ s, machineAt Leap.realEnv idle (fun _ => Vector.replicate 20 0) overtaking 2 = some s ∧
      Follows Leap.realEnv idle overtaking 2 s ∧
      ∀ n c, lastArrival Leap.realEnv idle overtaking 2 = some n → Leap.heldKeys idle n = ∅ →
        s.commands = some c → c.shoulder = 0 ∧ c.lazySusan = 0 :=
  arm_follows Leap.realEnv idle (fun _ => Vector.replicate 20 0) overtaking overtaking_drivable 2

/-! ## What the arm is told between -/

def commandsAt (k : ℕ) : Option Commands :=
  (machineAt env events temps arrivals k).bind (fun s => s.commands)

theorem commandsAt_eq
    (hdrive : ∀ k m, arrived env events arrivals k = some m → Drivable m) (k : ℕ) :
    commandsAt env events temps arrivals k =
      (lastMessage env events arrivals k).map (fun m => (fieldsOf m).commands) := by
  obtain ⟨s, hs, hfollows⟩ := machineAt_follows env events temps arrivals hdrive k
  rw [commandsAt, hs, Option.bind_some, hfollows.commands]

/-- How far the commands may be apart that the arm issues for the messages of events `n` and
`n'`. -/
structure CommandsApart (n n' : ℕ) (c c' : Commands) : Prop where
  wrist : |c'.wristJoint.toInt - c.wristJoint.toInt| ≤
    Leap.slowStep * (Leap.framesWith env events Leap.WristUnlocked (n' + 1) -
      Leap.framesWith env events Leap.WristUnlocked (n + 1) : ℕ)
  gripper : |c'.gripperJoint.toInt - c.gripperJoint.toInt| ≤
    Leap.slowStep * (Leap.framesWith env events Leap.GripperUnlocked (n' + 1) -
      Leap.framesWith env events Leap.GripperUnlocked (n + 1) : ℕ)
  joint : (∀ k, n < k → k ≤ n' → ¬ Leap.Jumps env events k) → ∀ j,
    |(c'.joint j).toInt - (c.joint j).toInt| ≤
      (Leap.slowStep + 1) * (Leap.framesWith env events Leap.Frame (n' + 1) -
        Leap.framesWith env events Leap.Frame (n + 1) : ℕ)

theorem commands_joint_toInt {m : Leap.Message} (hd : Drivable m) (j : Leap.Joint) :
    ((fieldsOf m).commands.joint j).toInt = m.joint j := by
  cases j with
  | one => exact word_toInt (hd.joint .one).1
  | two => exact word_toInt (hd.joint .two).1

end Link

end TitanRover.Arm
