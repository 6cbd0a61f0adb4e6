import TitanRover.Arm.Receiver
import TitanRover.Leap.Message

/-! # The command protocol round trip

What the sketch encodes the receiver decodes, whatever its two buffers held before: the run of the
reader over the message is followed field by field up to the seventh slash, where the scan breaks. -/
namespace TitanRover.Arm
open Foundations Foundations.Delimited
set_option autoImplicit false

/-- The message of seven 16-bit numbers, in the order of the fields. -/
def message (j1 j2 w wo so ls g : Int16) : List Byte :=
  Leap.Message.text {
    joint1PWM := j1.toInt
    joint2PWM := j2.toInt
    wrist := w.toInt
    wristOrientation := wo.toInt
    shoulderOrientation := so.toInt
    lazySusanOrientation := ls.toInt
    gripper := g.toInt }

def number (v : Int16) : List Byte := Decimal.integer v.toInt

theorem parse_number (v : Int16) : Decimal.parse 16 (number v) = v := by
  rw [number, Decimal.parse_integer, BitVec.ofInt_toInt]

theorem slash_not_mem_number (v : Int16) : slash ∉ number v := by
  intro h
  rcases Decimal.isDigit_or_minus h with hd | hm
  · exact absurd hd (by decide)
  · exact absurd hm (by decide)

theorem number_length (v : Int16) : (number v).length ≤ 6 := by
  have hlo := BitVec.le_toInt v
  have hhi := BitVec.toInt_lt (x := v)
  have habs : v.toInt.natAbs < 10 ^ 5 := by
    norm_num at hlo hhi ⊢
    omega
  exact Decimal.integer_length_le (by norm_num) habs

def front (j1 j2 w wo so ls g : Int16) : List Byte :=
  ([j1, j2, w, wo, so, ls].map number).flatMap (· ++ [slash]) ++ number g

theorem message_eq (j1 j2 w wo so ls g : Int16) :
    message j1 j2 w wo so ls g = front j1 j2 w wo so ls g ++ [slash] := by
  simp [message, Leap.Message.text, Leap.str, Leap.separator, front, number, slash]

theorem count_number (v : Int16) : (number v).count slash = 0 :=
  List.count_eq_zero.mpr (slash_not_mem_number v)

theorem count_front (j1 j2 w wo so ls g : Int16) :
    (front j1 j2 w wo so ls g).count slash = 6 := by
  simp [front, List.count_append, count_number]

theorem front_length (j1 j2 w wo so ls g : Int16) :
    (front j1 j2 w wo so ls g).length ≤ 48 := by
  have h1 := number_length j1
  have h2 := number_length j2
  have h3 := number_length w
  have h4 := number_length wo
  have h5 := number_length so
  have h6 := number_length ls
  have h7 := number_length g
  simp [front]
  omega

theorem run_front {j1 j2 w wo so ls : Int16} (g : Int16) (hj1 : j1 ≠ 0) (hj2 : j2 ≠ 0)
    (hw : w ≠ 0) (hwo : wo ≠ -1) (hso : so ≠ -1) (hls : ls ≠ -1) :
    format.run ⟨[], []⟩ (front j1 j2 w wo so ls g) =
      some ⟨[j1, j2, w, wo, so, ls], number g⟩ := by
  have hvalues : ([j1, j2, w, wo, so, ls].map number).map format.value =
      [j1, j2, w, wo, so, ls] := by
    simp [format, parse_number]
  have hfields : format.run ⟨[], []⟩
      (([j1, j2, w, wo, so, ls].map number).flatMap (· ++ [format.delimiter])) =
      some ⟨[] ++ ([j1, j2, w, wo, so, ls].map number).map format.value, []⟩ := by
    apply run_fields
    · intro t ht
      obtain ⟨v, -, rfl⟩ := List.mem_map.mp ht
      have hlen := number_length v
      exact ⟨slash_not_mem_number v, by simp only [format]; omega⟩
    · intro i hi
      simp only [List.length_map, List.length_cons, List.length_nil] at hi
      simp only [List.length_nil, Nat.zero_add, List.getElem_map]
      interval_cases i <;> simp_all [format, parse_number, sentinel]
    · simp [format]
  rw [hvalues, List.nil_append] at hfields
  have hopen : ¬ format.Full [j1, j2, w, wo, so, ls] := by
    simp [full_iff]
  have hg := run_text format (s := ⟨[j1, j2, w, wo, so, ls], []⟩) hopen
    (slash_not_mem_number g) (by
      have hlen := number_length g
      simp only [format, List.length_nil]
      omega)
  rw [front, run_append]
  change (format.run ⟨[], []⟩ (([j1, j2, w, wo, so, ls].map number).flatMap
    (· ++ [format.delimiter]))).bind _ = _
  rw [hfields, Option.bind_some, hg, List.nil_append]

/-- The scan breaks at the seventh slash, with the seven values in the fields. -/
theorem scan_message {j1 j2 w wo so ls : Int16} (g : Int16) (hj1 : j1 ≠ 0) (hj2 : j2 ≠ 0)
    (hw : w ≠ 0) (hwo : wo ≠ -1) (hso : so ≠ -1) (hls : ls ≠ -1) (temp : Temp)
    (rest : List Byte) :
    ∃ s, scan 0 (front j1 j2 w wo so ls g ++ slash :: rest)
        { temp, loopCount := 0, fields := .initial } =
          some (s, (front j1 j2 w wo so ls g).length) ∧
      s.fields = .ofStored [j1, j2, w, wo, so, ls, g] := by
  have hsix : ([j1, j2, w, wo, so, ls] : List Int16).length ≤ 6 := by simp
  have hopen : ¬ format.Full [j1, j2, w, wo, so, ls] := by
    simp [full_iff]
  have hfull : format.Full (format.close [j1, j2, w, wo, so, ls] (number g)) :=
    (full_close_iff hsix (number g)).mpr rfl
  have hcap : (number g).length < format.capacity := by
    have h := number_length g
    simp only [format]
    omega
  obtain ⟨s, hscan, hreads⟩ := scan_append (reads_initial temp) (front j1 j2 w wo so ls g)
    (slash :: rest) (run_front g hj1 hj2 hw hwo hso hls) hopen
  have hstep := scanStep_refines hreads slash
  rw [show slash = format.delimiter from rfl,
    step_delimiter format (s := ⟨[j1, j2, w, wo, so, ls], number g⟩) hopen hcap] at hstep
  obtain ⟨s', hs', hfields, -⟩ := hstep
  have hbreak : scanStep (0 + (front j1 j2 w wo so ls g).length) slash s = some (s', true) := by
    rw [show slash = format.delimiter from rfl, hs']
    simp [hfull]
  refine ⟨s', ?_, ?_⟩
  · rw [hscan, scan, hbreak, Nat.zero_add]
  · rw [hfields, ofStored_close hsix, parse_number]
    rfl

/-- The receiver's scan of a message breaks after its seven numbers. -/
theorem receive_front {j1 j2 w wo so ls : Int16} (g : Int16) (hj1 : j1 ≠ 0) (hj2 : j2 ≠ 0)
    (hw : w ≠ 0) (hwo : wo ≠ -1) (hso : so ≠ -1) (hls : ls ≠ -1) (packetBuffer : PacketBuffer)
    (temp : Temp) :
    ∃ r, receive packetBuffer temp (message j1 j2 w wo so ls g) = some r ∧
      r.fields = .ofStored [j1, j2, w, wo, so, ls, g] ∧
      r.stop = (front j1 j2 w wo so ls g).length := by
  have hlen := front_length j1 j2 w wo so ls g
  have hmessage := message_eq j1 j2 w wo so ls g
  have hsize : (message j1 j2 w wo so ls g).length =
      (front j1 j2 w wo so ls g).length + 1 := by
    rw [hmessage, List.length_append, List.length_singleton]
  obtain ⟨buffer, -, hreceive⟩ := receive_eq packetBuffer temp
    (message j1 j2 w wo so ls g) (by omega) (by omega)
  obtain ⟨s, hscan, hfields⟩ := scan_message g hj1 hj2 hw hwo hso hls temp
    (0 :: packetBuffer.toList.drop ((message j1 j2 w wo so ls g).length + 1))
  have hcontents : contents packetBuffer (message j1 j2 w wo so ls g) =
      front j1 j2 w wo so ls g ++ slash :: 0 ::
        packetBuffer.toList.drop ((message j1 j2 w wo so ls g).length + 1) := by
    rw [contents, hmessage, List.append_assoc, List.singleton_append]
  exact ⟨_, by rw [hreceive, hcontents, hscan, Option.map_some], hfields, rfl⟩

/-- The receiver decodes exactly the seven numbers of a message and stops at its seventh slash. -/
theorem receive_message (j1 j2 w wo so ls g : Int16) (hj1 : j1 ≠ 0) (hj2 : j2 ≠ 0)
    (hw : w ≠ 0) (hwo : wo ≠ -1) (hso : so ≠ -1) (hls : ls ≠ -1)
    (packetBuffer : PacketBuffer) (temp : Temp) :
    ∃ r, receive packetBuffer temp (message j1 j2 w wo so ls g) = some r ∧
      r.fields = { usAJNT1 := j1, usAJNT2 := j2, usWRIST := w, usGRIPPER := g,
                   wristOrientation := wo, shoulderOrientation := so,
                   lazySusanOrientation := ls } ∧
      (message j1 j2 w wo so ls g)[r.stop]? = some slash ∧
      ((message j1 j2 w wo so ls g).take r.stop).count slash = 6 := by
  obtain ⟨r, hreceive, hfields, hstop⟩ :=
    receive_front g hj1 hj2 hw hwo hso hls packetBuffer temp
  refine ⟨r, hreceive, hfields, ?_, ?_⟩
  · rw [hstop, message_eq]
    simp
  · rw [hstop, message_eq]
    simp [count_front]

theorem receive_message_centred :
    ∃ r, receive (Vector.replicate 255 slash) (Vector.replicate 20 slash)
        (message 1500 1500 1500 0 0 0 1500) = some r ∧
      r.fields = { usAJNT1 := 1500, usAJNT2 := 1500, usWRIST := 1500, usGRIPPER := 1500,
                   wristOrientation := 0, shoulderOrientation := 0,
                   lazySusanOrientation := 0 } ∧
      (message 1500 1500 1500 0 0 0 1500)[r.stop]? = some slash ∧
      ((message 1500 1500 1500 0 0 0 1500).take r.stop).count slash = 6 :=
  receive_message 1500 1500 1500 0 0 0 1500 (by decide) (by decide) (by decide) (by decide)
    (by decide) (by decide) _ _

end TitanRover.Arm
