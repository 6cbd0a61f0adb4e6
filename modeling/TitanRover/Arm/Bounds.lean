import TitanRover.Arm.Receiver

/-! # The receiver's array bounds

`receive` fails exactly when an assignment leaves `packetBuffer` or `temp`. The terminator leaves
`packetBuffer` for a datagram of 255 bytes or more, and the scan leaves `temp` when, before seven
fields are complete, twenty bytes pass without a slash. -/
namespace TitanRover.Arm
open Foundations Foundations.Delimited
set_option autoImplicit false

/-- Every text between slashes, up to the seventh field, leaves room in `temp` for the byte that
follows it. -/
def TextsFit (bytes : List Byte) : Prop :=
  ∀ i < bytes.length, (format.filled (bytes.take i)).length < 7 →
    (openText slash (bytes.take i)).length < 20

theorem textsFit_iff (bytes : List Byte) : TextsFit bytes ↔ format.Fits bytes := by
  unfold TextsFit Format.Fits
  simp only [full_iff, not_le]
  rfl

theorem receive_isSome_iff (packetBuffer : PacketBuffer) (temp : Temp) (datagram : List Byte)
    (h : 0 < datagram.length) :
    (receive packetBuffer temp datagram).isSome ↔
      datagram.length ≤ 254 ∧ TextsFit (contents packetBuffer datagram) := by
  by_cases hlen : datagram.length ≤ 254
  · have hfields := congrArg Option.isSome (receive_fields packetBuffer temp datagram h hlen)
    rw [Option.isSome_map, Option.isSome_map] at hfields
    rw [hfields, run_isSome_iff, textsFit_iff]
    simp [hlen]
  · rw [receive_long packetBuffer temp (by omega)]
    simp [hlen]

theorem receive_isSome_iff_fresh :
    (receive (Vector.replicate 255 0) (Vector.replicate 20 0) [49, slash]).isSome ↔
      ([49, slash] : List Byte).length ≤ 254 ∧
        TextsFit (contents (Vector.replicate 255 0) [49, slash]) :=
  receive_isSome_iff _ _ [49, slash] (by decide)

/-- A datagram of 255 slashes is terminated outside `packetBuffer`; the datagram `"1"` makes the
scan of a fresh buffer leave `temp`. -/
theorem receive_outside :
    receive (Vector.replicate 255 0) (Vector.replicate 20 0) (List.replicate 255 slash) = none ∧
      receive (Vector.replicate 255 0) (Vector.replicate 20 0) [49] = none := by
  refine ⟨receive_long _ _ (by rw [List.length_replicate]; omega), ?_⟩
  have hcontents : contents (Vector.replicate 255 0) [49] = 49 :: List.replicate 254 0 := by
    rw [contents, Vector.toList_replicate, List.drop_replicate, ← List.replicate_succ]
    rfl
  have hrun : format.run ⟨[], []⟩ (49 :: List.replicate 254 0) = none := by
    apply run_overrun
    · simp [full_iff]
    · rw [List.mem_cons, List.mem_replicate]
      decide
    · exact Nat.zero_le _
    · rw [List.length_cons, List.length_replicate]
      change 20 < 0 + (254 + 1)
      omega
  have hfields := receive_fields (Vector.replicate 255 0) (Vector.replicate 20 0)
    [49] (by decide) (by decide)
  rw [hcontents, hrun] at hfields
  exact Option.map_eq_none_iff.mp hfields

end TitanRover.Arm
