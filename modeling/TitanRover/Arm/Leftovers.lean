import Mathlib.Tactic.IntervalCases
import TitanRover.Arm.Bounds
import TitanRover.Arm.RoundTrip

/-! # What old bytes can change

The scan goes to the end of `packetBuffer`, past the terminator, so a datagram that leaves a field
open is completed by bytes of earlier datagrams. `Holds` are the contents that runs of `loop` leave
behind; of these all bytes but the last are free. `Exposed` says which datagrams decode differently
over two of them. -/
namespace TitanRover.Arm
open Foundations Foundations.Delimited
set_option autoImplicit false

/-- The contents that `packetBuffer` has between iterations of `loop`. -/
inductive Holds : PacketBuffer → Prop
  | boot : Holds (Vector.replicate 255 0)
  | loop {buffer buffer' : PacketBuffer} {issued : Option Commands} (h : Holds buffer)
      (temp : Temp) (packet : List Byte)
      (hloop : loop buffer temp packet = some (buffer', issued)) : Holds buffer'

def Independent (datagram : List Byte) : Prop :=
  ∀ (buffer₁ buffer₂ : PacketBuffer) (temp₁ temp₂ : Temp) (r₁ r₂ : Received),
    Holds buffer₁ → Holds buffer₂ →
    receive buffer₁ temp₁ datagram = some r₁ → receive buffer₂ temp₂ datagram = some r₂ →
    r₁.fields = r₂.fields ∧ r₁.fields.commands = r₂.fields.commands

/-! ## Which datagrams are exposed -/

/-- The number of old bytes that a datagram leaves free, which are those after its terminator but
for the last. -/
def oldBytes (datagram : List Byte) : ℕ := 253 - datagram.length

def nextFilled (datagram : List Byte) : List Int16 :=
  format.close (format.filled datagram) (openText slash datagram)

/-- A slot is open and the scan reaches old bytes, where some old text closes the open slot and
another leaves it open, or a whole further field fits, or an empty one does that is not the mark
of its slot. -/
def Exposed (datagram : List Byte) : Prop :=
  (format.filled datagram).length < 7 ∧ TextsFit datagram ∧
    (openText slash datagram).length ≤ 18 ∧
    (Decimal.parse 16 (openText slash datagram) ≠ sentinel (format.filled datagram).length ∧
        1 ≤ oldBytes datagram ∧ (openText slash datagram).length + oldBytes datagram ≤ 18 ∨
      (format.filled datagram).length < 6 ∧ 3 ≤ oldBytes datagram ∨
      oldBytes datagram = 2 ∧ 3 ≤ (nextFilled datagram).length ∧
        (nextFilled datagram).length < 6)

/-! ## The free bytes -/

theorem loop_receive {buffer buffer' : PacketBuffer} {issued : Option Commands} {temp : Temp}
    {packet : List Byte} (h : loop buffer temp packet = some (buffer', issued)) :
    buffer' = buffer ∨ 0 < packet.length ∧
      ∃ r, receive buffer temp packet = some r ∧ r.packetBuffer = buffer' := by
  unfold loop at h
  split at h
  · left
    simp only [Option.some.injEq, Prod.mk.injEq] at h
    exact h.1.symm
  · right
    refine ⟨by omega, ?_⟩
    obtain ⟨r, hr, hpair⟩ := Option.map_eq_some_iff.mp h
    simp only [Prod.mk.injEq] at hpair
    exact ⟨r, hr, hpair.1⟩

theorem receive_buffer {buffer : PacketBuffer} {temp : Temp} {datagram : List Byte}
    (h0 : 0 < datagram.length) {r : Received} (hr : receive buffer temp datagram = some r) :
    datagram.length ≤ 254 ∧ r.packetBuffer.toList = contents buffer datagram := by
  have hlen : datagram.length ≤ 254 := by
    by_contra hn
    rw [receive_long buffer temp (by omega)] at hr
    exact absurd hr (by simp)
  obtain ⟨buffer', hlist, hreceive⟩ := receive_eq buffer temp datagram h0 hlen
  rw [hreceive] at hr
  obtain ⟨s, -, hs⟩ := Option.map_eq_some_iff.mp hr
  rw [← hs]
  exact ⟨hlen, hlist⟩

theorem holds_last {buffer : PacketBuffer} (h : Holds buffer) :
    ∃ front, front.length = 254 ∧ buffer.toList = front ++ [0] := by
  induction h with
  | boot =>
    refine ⟨List.replicate 254 0, List.length_replicate, ?_⟩
    rw [Vector.toList_replicate, ← List.replicate_succ']
  | @loop buffer buffer' issued h temp packet hloop ih =>
    obtain ⟨front, hsize, hfront⟩ := ih
    rcases loop_receive hloop with he | ⟨h0, r, hr, he⟩
    · exact ⟨front, hsize, by rw [he, hfront]⟩
    · obtain ⟨hlen, hlist⟩ := receive_buffer h0 hr
      rw [he] at hlist
      by_cases hfull : packet.length = 254
      · refine ⟨packet, hfull, ?_⟩
        rw [hlist, contents, hfull, List.drop_eq_nil_of_le (by simp)]
      · refine ⟨packet ++ 0 :: front.drop (packet.length + 1), ?_, ?_⟩
        · rw [List.length_append, List.length_cons, List.length_drop]
          omega
        · rw [hlist, contents, hfront, List.drop_append_of_le_length (by omega)]
          simp

theorem contents_holds {buffer : PacketBuffer} (h : Holds buffer) {datagram : List Byte}
    (hlen : datagram.length ≤ 253) : ∃ old, old.length = oldBytes datagram ∧
      contents buffer datagram = datagram ++ 0 :: (old ++ [0]) := by
  obtain ⟨front, hsize, hfront⟩ := holds_last h
  refine ⟨front.drop (datagram.length + 1), ?_, ?_⟩
  · rw [List.length_drop, oldBytes]
    omega
  · rw [contents, hfront, List.drop_append_of_le_length (by omega)]

theorem Holds.receive {buffer : PacketBuffer} (h : Holds buffer) {temp : Temp} {packet : List Byte}
    (h0 : 0 < packet.length) {r : Received} (hr : Arm.receive buffer temp packet = some r) :
    Holds r.packetBuffer := by
  apply Holds.loop h temp packet
  unfold Arm.loop
  rw [if_neg (by omega), hr]
  rfl

/-- Old bytes over which a datagram stays within the arrays were left behind by some run. -/
theorem holds_of_run {datagram old : List Byte} (hlen : datagram.length ≤ 253)
    (hold : old.length = oldBytes datagram) {σ : State Byte Int16}
    (hrun : format.run ⟨[], []⟩ (datagram ++ 0 :: (old ++ [0])) = some σ) :
    ∃ buffer, Holds buffer ∧ contents buffer datagram = datagram ++ 0 :: (old ++ [0]) := by
  have hpacket : (datagram ++ 0 :: old).length = 254 := by
    rw [List.length_append, List.length_cons, hold, oldBytes]
    omega
  have hcontents : contents (Vector.replicate 255 0) (datagram ++ 0 :: old) =
      datagram ++ 0 :: (old ++ [0]) := by
    rw [contents, hpacket, Vector.toList_replicate,
      List.drop_eq_nil_of_le (Nat.le_of_eq List.length_replicate), List.append_assoc,
      List.cons_append]
  have hfields := receive_fields (Vector.replicate 255 0) (Vector.replicate 20 0)
    (datagram ++ 0 :: old) (by omega) (by omega)
  rw [hcontents, hrun, Option.map_some] at hfields
  obtain ⟨r, hr, -⟩ := Option.map_eq_some_iff.mp hfields
  obtain ⟨-, hlist⟩ := receive_buffer (by omega) hr
  rw [hcontents] at hlist
  refine ⟨r.packetBuffer, ?_, ?_⟩
  · exact Holds.boot.receive (by omega) hr
  · rw [contents, hlist, List.drop_append]
    have hdrop : datagram.drop (datagram.length + 1) = [] :=
      List.drop_eq_nil_of_le (by omega)
    rw [hdrop, Nat.add_sub_cancel_left]
    simp

/-! ## Reading old bytes -/

theorem slot_ofStored {st st' : List Int16} (h : Fields.ofStored st = Fields.ofStored st')
    {k : ℕ} (hk : k < 7) : st.getD k (sentinel k) = st'.getD k (sentinel k) := by
  simp only [Fields.ofStored, Fields.mk.injEq] at h
  obtain ⟨h0, h1, h2, h6, h3, h4, h5⟩ := h
  interval_cases k
  · exact h0
  · exact h1
  · exact h2
  · exact h3
  · exact h4
  · exact h5
  · exact h6

theorem ofStored_ne {st more st' : List Int16} {v : Int16} (hlen : st.length < 7)
    (h : st'.getD st.length (sentinel st.length) ≠ v) :
    Fields.ofStored (st ++ v :: more) ≠ Fields.ofStored st' := by
  intro he
  have hslot := slot_ofStored he hlen
  rw [List.getD_eq_getElem?_getD] at hslot
  rw [List.getElem?_append_right (Nat.le_refl _), Nat.sub_self, List.getElem?_cons_zero] at hslot
  exact h hslot.symm

theorem step_zero {σ τ : State Byte Int16} (h : format.step σ 0 = some τ) :
    τ.stored = σ.stored := by
  unfold Format.step at h
  split at h
  · rw [Option.some.injEq] at h
    rw [h]
  · split at h
    · rw [if_neg (by decide), Option.some.injEq] at h
      rw [← h]
    · exact absurd h (by simp)

section OpenSlot
variable {st : List Int16} {p : List Byte}

theorem close_terminated (st : List Int16) (p rest : List Byte) :
    format.close st (p ++ 0 :: rest) = format.close st p :=
  close_congr format (Decimal.parse_stop stops_zero p rest) st

/-- Old bytes without a slash leave the open slot open, and must fit into `temp`. -/
theorem run_without_slash (hst : st.length < 7) (hp : p.length ≤ 20) (old : List Byte)
    (hold : slash ∉ old) {τ : State Byte Int16} :
    format.run ⟨st, p⟩ (0 :: (old ++ [0])) = some τ ↔
      p.length + old.length ≤ 18 ∧ τ = ⟨st, p ++ 0 :: (old ++ [0])⟩ := by
  have hopen : ¬ format.Full st := not_le.mpr hst
  have hnot : format.delimiter ∉ 0 :: (old ++ [0]) := by
    rw [format_delimiter]
    simp [hold]
    decide
  have heq : format.run ⟨st, p⟩ (0 :: (old ++ [0])) =
      if p.length + ((old ++ [0]).length + 1) ≤ 20 then some ⟨st, p ++ 0 :: (old ++ [0])⟩
      else none := run_text_eq format (s := ⟨st, p⟩) hopen hnot hp
  rw [heq, List.length_append, List.length_singleton]
  by_cases hfit : p.length + old.length ≤ 18
  · rw [if_pos (by omega), Option.some.injEq]
    exact ⟨fun h => ⟨hfit, h.symm⟩, fun h => h.2.symm⟩
  · rw [if_neg (by omega)]
    simp [hfit]

theorem run_first_slash (hst : st.length < 7) (hp : p.length ≤ 20) (old : List Byte)
    (hold : slash ∉ old) (rest : List Byte) {τ : State Byte Int16} :
    format.run ⟨st, p⟩ (0 :: (old ++ slash :: rest)) = some τ ↔
      p.length + old.length ≤ 18 ∧ format.run ⟨format.close st p, []⟩ rest = some τ := by
  have hopen : ¬ format.Full st := not_le.mpr hst
  have hnot : format.delimiter ∉ 0 :: old := by
    rw [format_delimiter]
    simp [hold]
    decide
  have heq : format.run ⟨st, p⟩ ((0 :: old) ++ [slash]) =
      if p.length + (old.length + 1) < 20 then some ⟨format.close st (p ++ 0 :: old), []⟩
      else none := run_field_eq format (s := ⟨st, p⟩) hopen hnot hp
  have hsplit : 0 :: (old ++ slash :: rest) = ((0 :: old) ++ [slash]) ++ rest := by
    simp
  rw [hsplit, run_append, heq]
  by_cases hfit : p.length + old.length ≤ 18
  · rw [if_pos (by omega), Option.bind_some, close_terminated]
    simp [hfit]
  · rw [if_neg (by omega)]
    simp [hfit]

theorem ofStored_close_sentinel (hst : st.length < 7)
    (hv : Decimal.parse 16 p = sentinel st.length) :
    Fields.ofStored (format.close st p) = Fields.ofStored st := by
  rw [ofStored_close (by omega), hv, ofStored_append_sentinel (by omega)]

theorem close_of_ne (hv : Decimal.parse 16 p ≠ sentinel st.length) :
    format.close st p = st ++ [Decimal.parse 16 p] := by
  rw [Format.close, if_pos (by simp [format, hv])]
  rfl

/-- At most one byte after a closed text reads no value that is not the mark of its slot, unless
that slot has another mark than zero. -/
theorem fields_after_slash {u : List Int16} {rest : List Byte} (hrest : rest.length ≤ 1)
    (hmark : rest.length = 1 → ¬ (3 ≤ u.length ∧ u.length < 6)) {τ : State Byte Int16}
    (hrun : format.run ⟨u, []⟩ (rest ++ [0]) = some τ) :
    Fields.ofStored τ.stored = Fields.ofStored u := by
  by_cases hfull : format.Full u
  · rw [run_full format hfull, Option.some.injEq] at hrun
    rw [← hrun]
  · match rest with
    | [] => rw [step_zero (by simpa using hrun)]
    | [c] =>
      rw [run_append, run_singleton] at hrun
      obtain ⟨σ, hσ, hrun⟩ := Option.bind_eq_some_iff.mp hrun
      rw [step_zero (by simpa using hrun)]
      by_cases hc : c = slash
      · rw [hc, ← format_delimiter, step_delimiter format (s := ⟨u, []⟩) hfull
          (show 0 < 20 by omega), Option.some.injEq] at hσ
        rw [← hσ]
        apply ofStored_close_sentinel (not_le.mp hfull)
        rw [Decimal.parse_nil, sentinel, if_neg (hmark rfl)]
        rfl
      · rw [step_text format (s := ⟨u, []⟩) hfull (show 0 < 20 by omega) hc,
          Option.some.injEq] at hσ
        rw [← hσ]
    | _ :: _ :: _ =>
      simp only [List.length_cons] at hrest
      omega

/-- At most two old bytes, or any old bytes once six slots are filled, close the open slot if there
is a slash among them and do nothing more. -/
theorem fields_of_few (hst : st.length < 7) (hp : p.length ≤ 20) {old : List Byte}
    (hfew : st.length = 6 ∨ old.length ≤ 2 ∧ (old.length = 2 →
      ¬ (3 ≤ (format.close st p).length ∧ (format.close st p).length < 6)))
    {τ : State Byte Int16} (hrun : format.run ⟨st, p⟩ (0 :: (old ++ [0])) = some τ) :
    Fields.ofStored τ.stored =
        Fields.ofStored (if slash ∈ old then format.close st p else st) ∧
      (slash ∉ old → p.length + old.length ≤ 18) := by
  by_cases hslash : slash ∈ old
  · refine ⟨?_, fun hn => absurd hslash hn⟩
    rw [if_pos hslash]
    obtain ⟨a, b, rfl, ha⟩ := List.eq_append_cons_of_mem hslash
    rw [List.append_assoc, List.cons_append, run_first_slash hst hp a ha] at hrun
    rcases hfew with h6 | ⟨h2, hempty⟩
    · have hfull := (full_close_iff (by omega) p).mpr h6
      rw [run_full format hfull, Option.some.injEq] at hrun
      rw [← hrun.2]
    · rw [List.length_append, List.length_cons] at h2 hempty
      exact fields_after_slash (by omega) (fun h1 => hempty (by omega)) hrun.2
  · obtain ⟨hfit, rfl⟩ := (run_without_slash hst hp old hslash).mp hrun
    exact ⟨by rw [if_neg hslash], fun _ => hfit⟩

theorem open_length (hst : st.length < 7) {old : List Byte} {τ : State Byte Int16}
    (hrun : format.run ⟨st, p⟩ (0 :: (old ++ [0])) = some τ) : p.length ≤ 18 := by
  have hp : p.length < 20 := by
    by_contra hn
    rw [run_cons, step_overrun format (s := ⟨st, p⟩) (not_le.mpr hst) hn] at hrun
    exact absurd hrun (by simp)
  by_cases hslash : slash ∈ old
  · obtain ⟨a, b, rfl, ha⟩ := List.eq_append_cons_of_mem hslash
    rw [List.append_assoc, List.cons_append, run_first_slash hst (by omega) a ha] at hrun
    omega
  · have hfit := (run_without_slash hst (by omega) old hslash).mp hrun
    omega

/-! ## Old bytes that matter -/

theorem run_slashes (u : List Int16) (n : ℕ) :
    ∃ τ, format.run ⟨u, []⟩ (List.replicate n slash ++ [0]) = some τ ∧ u <+: τ.stored := by
  obtain ⟨u', hu⟩ := run_delimiters format (show 0 < 20 by omega) u n
  rw [format_delimiter] at hu
  have hprefix := prefix_run format hu
  rw [run_append, hu, Option.bind_some, run_singleton]
  by_cases hfull : format.Full u'
  · exact ⟨_, step_full format (s := ⟨u', []⟩) hfull 0, hprefix⟩
  · exact ⟨_, step_text format (s := ⟨u', []⟩) hfull (show 0 < 20 by omega) (by decide), hprefix⟩

theorem run_closed (hst : st.length < 7) (hp : p.length ≤ 18) (n : ℕ) :
    ∃ τ, format.run ⟨st, p⟩ (0 :: ((slash :: List.replicate n slash) ++ [0])) = some τ ∧
      format.close st p <+: τ.stored := by
  obtain ⟨τ, hτ, hprefix⟩ := run_slashes (format.close st p) n
  exact ⟨τ, (run_first_slash hst (by omega) [] List.not_mem_nil _).mpr ⟨by simpa using hp, hτ⟩,
    hprefix⟩

theorem run_further (hst : st.length < 7) (hp : p.length ≤ 18)
    (hnext : (format.close st p).length < 7) (digit : Byte) (hdigit : digit ≠ slash)
    (hv : Decimal.parse 16 [digit] ≠ sentinel (format.close st p).length) (n : ℕ) :
    ∃ τ, format.run ⟨st, p⟩
        (0 :: ((slash :: digit :: slash :: List.replicate n slash) ++ [0])) = some τ ∧
      format.close st p ++ [Decimal.parse 16 [digit]] <+: τ.stored := by
  have hfield : format.run ⟨format.close st p, []⟩ ([digit] ++ [slash]) =
      some ⟨format.close st p ++ [Decimal.parse 16 [digit]], []⟩ := by
    rw [← close_of_ne hv]
    exact run_field format (s := ⟨format.close st p, []⟩) (not_le.mpr hnext) (t := [digit])
      (by rw [List.mem_singleton]; exact Ne.symm hdigit) (show 0 + 1 < 20 by omega)
  obtain ⟨τ, hτ, hprefix⟩ :=
    run_slashes (format.close st p ++ [Decimal.parse 16 [digit]]) n
  refine ⟨τ, (run_first_slash hst (by omega) [] List.not_mem_nil _).mpr ⟨by simpa using hp, ?_⟩,
    hprefix⟩
  change format.run _ (([digit] ++ [slash]) ++ (List.replicate n slash ++ [0])) = _
  rw [run_append, hfield, Option.bind_some, hτ]

/-- Two runs over `n` old bytes decode different fields. -/
def Leaks (st : List Int16) (p : List Byte) (n : ℕ) : Prop :=
  ∃ old old' σ τ, old.length = n ∧ old'.length = n ∧
    format.run ⟨st, p⟩ (0 :: (old ++ [0])) = some σ ∧
    format.run ⟨st, p⟩ (0 :: (old' ++ [0])) = some τ ∧
    Fields.ofStored σ.stored ≠ Fields.ofStored τ.stored

theorem leaks_open (hst : st.length < 7) (hp : p.length ≤ 18) {n : ℕ} (hn : 1 ≤ n)
    (hroom : p.length + n ≤ 18) (hv : Decimal.parse 16 p ≠ sentinel st.length) :
    Leaks st p n := by
  have hzero : slash ∉ List.replicate n (0 : Byte) := by
    rw [List.mem_replicate]
    exact fun hm => absurd hm.2 (by decide)
  obtain ⟨τ, hτ, more, hmore⟩ := run_closed hst hp (n - 1)
  have hplain := (run_without_slash hst (hp.trans (by omega)) (List.replicate n 0) hzero).mpr
    ⟨by rw [List.length_replicate]; exact hroom, rfl⟩
  refine ⟨_, _, _, _, ?_, List.length_replicate, hτ, hplain, ?_⟩
  · rw [List.length_cons, List.length_replicate]
    omega
  · rw [← hmore, close_of_ne hv, List.append_assoc, List.singleton_append]
    apply ofStored_ne hst
    simpa using hv.symm

theorem sentinel_cases (k : ℕ) : sentinel k = 0 ∨ sentinel k = -1 := by
  unfold sentinel
  split
  · exact Or.inr rfl
  · exact Or.inl rfl

theorem leaks_further (hst : st.length < 6) (hp : p.length ≤ 18) {n : ℕ} (hn : 3 ≤ n) :
    Leaks st p n := by
  have hst' : st.length < 7 := by omega
  have hnext : (format.close st p).length < 7 := by
    by_contra hnot
    have h6 := (full_close_iff (by omega) p).mp (not_lt.mp hnot)
    omega
  have hmark := sentinel_cases (format.close st p).length
  have hlen : ∀ b : Byte, (slash :: b :: slash :: List.replicate (n - 3) slash).length = n := by
    intro b
    simp only [List.length_cons, List.length_replicate]
    omega
  obtain ⟨σ, hσ, more, hmore⟩ := run_further hst' hp hnext 53 (by decide)
    (by rcases hmark with he | he <;> rw [he] <;> decide) (n - 3)
  obtain ⟨τ, hτ, more', hmore'⟩ := run_further hst' hp hnext 55 (by decide)
    (by rcases hmark with he | he <;> rw [he] <;> decide) (n - 3)
  refine ⟨_, _, _, _, hlen 53, hlen 55, hσ, hτ, ?_⟩
  rw [← hmore, ← hmore', List.append_assoc, List.singleton_append]
  apply ofStored_ne hnext
  rw [List.getD_eq_getElem?_getD, List.append_assoc, List.singleton_append,
    List.getElem?_append_right (Nat.le_refl _), Nat.sub_self, List.getElem?_cons_zero,
    Option.getD_some]
  decide

theorem leaks_empty (hst : st.length < 7) (hp : p.length ≤ 18)
    (hlo : 3 ≤ (format.close st p).length) (hhi : (format.close st p).length < 6) :
    Leaks st p 2 := by
  have hnext : ¬ format.Full (format.close st p) := by
    rw [full_iff]
    omega
  have hmark : sentinel (format.close st p).length = -1 := if_pos ⟨hlo, hhi⟩
  have hempty : format.close (format.close st p) [] = format.close st p ++ [0] := by
    rw [close_of_ne (by rw [hmark]; decide)]
    rfl
  obtain ⟨σ, hσ, more, hmore⟩ := run_slashes (format.close st p ++ [0]) 0
  have hslash : format.run ⟨format.close st p, []⟩ ([slash] ++ [0]) = some σ := by
    rw [run_append, run_singleton, ← format_delimiter,
      step_delimiter format (s := ⟨format.close st p, []⟩) hnext (show 0 < 20 by omega),
      Option.bind_some]
    simpa [hempty] using hσ
  have htext : format.run ⟨format.close st p, []⟩ ([0] ++ [0]) =
      some ⟨format.close st p, [0, 0]⟩ :=
    run_text format (s := ⟨format.close st p, []⟩) hnext (t := [0, 0]) (by decide)
      (show 0 + 2 ≤ 20 by omega)
  have hx := (run_first_slash hst (by omega) [] List.not_mem_nil _).mpr
    ⟨by simpa using hp, hslash⟩
  have hy := (run_first_slash hst (by omega) [] List.not_mem_nil _).mpr
    ⟨by simpa using hp, htext⟩
  refine ⟨[slash, slash], [slash, 0], _, _, rfl, rfl, hx, hy, ?_⟩
  rw [← hmore, List.append_assoc, List.singleton_append]
  apply ofStored_ne (not_le.mp hnext)
  rw [hmark]
  simp

/-- Old bytes that cannot leave the arrays without closing the open slot, or that close it with the
mark of an unread slot, decode the same fields. -/
theorem fields_agree (hst : st.length < 7) (hp : p.length ≤ 20) {n : ℕ}
    (hfew : st.length = 6 ∨ n ≤ 2 ∧
      (n = 2 → ¬ (3 ≤ (format.close st p).length ∧ (format.close st p).length < 6)))
    (hopen : Decimal.parse 16 p = sentinel st.length ∨ n = 0 ∨ 18 < p.length + n)
    {old old' : List Byte} (hold : old.length = n) (hold' : old'.length = n)
    {τ τ' : State Byte Int16} (hrun : format.run ⟨st, p⟩ (0 :: (old ++ [0])) = some τ)
    (hrun' : format.run ⟨st, p⟩ (0 :: (old' ++ [0])) = some τ') :
    Fields.ofStored τ.stored = Fields.ofStored τ'.stored := by
  obtain ⟨hf, hroom⟩ := fields_of_few hst hp (by rw [hold]; exact hfew) hrun
  obtain ⟨hf', hroom'⟩ := fields_of_few hst hp (by rw [hold']; exact hfew) hrun'
  rw [hf, hf']
  rcases hopen with hv | h0 | hlong
  · have hsame := ofStored_close_sentinel hst hv
    split <;> split <;> simp [hsame]
  · rw [List.length_eq_zero_iff.mp (hold.trans h0), List.length_eq_zero_iff.mp (hold'.trans h0)]
  · have hmem : slash ∈ old := by
      by_contra hn
      have hle := hroom hn
      omega
    have hmem' : slash ∈ old' := by
      by_contra hn
      have hle := hroom' hn
      omega
    rw [if_pos hmem, if_pos hmem']

end OpenSlot

/-! ## Exposed datagrams -/

theorem run_open {datagram : List Byte} (hst : (format.filled datagram).length < 7)
    (hfit : TextsFit datagram) : format.run ⟨[], []⟩ datagram =
      some ⟨format.filled datagram, openText slash datagram⟩ := by
  have hsome := (run_isSome_iff format datagram).mpr ((textsFit_iff datagram).mp hfit)
  obtain ⟨σ, hσ⟩ := Option.isSome_iff_exists.mp hsome
  obtain ⟨hstored, hpending⟩ := run_reads format hσ
  have hopen : ¬ format.Full σ.stored := by
    rw [hstored]
    exact not_le.mpr hst
  rw [hσ, ← hstored, ← format_delimiter, ← hpending hopen]

theorem leaks_of_exposed {datagram : List Byte} (h : Exposed datagram) :
    Leaks (format.filled datagram) (openText slash datagram) (oldBytes datagram) := by
  obtain ⟨hst, -, hp, ⟨hv, hone, hroom⟩ | ⟨hst', hthree⟩ | ⟨htwo, hlo, hhi⟩⟩ := h
  · exact leaks_open hst hp hone hroom hv
  · exact leaks_further hst' hp hthree
  · rw [htwo]
    exact leaks_empty hst hp hlo hhi

theorem fields_of_not_exposed {datagram old old' : List Byte} (h : ¬ Exposed datagram)
    (hold : old.length = oldBytes datagram) (hold' : old'.length = oldBytes datagram)
    {τ τ' : State Byte Int16}
    (hrun : format.run ⟨[], []⟩ (datagram ++ 0 :: (old ++ [0])) = some τ)
    (hrun' : format.run ⟨[], []⟩ (datagram ++ 0 :: (old' ++ [0])) = some τ') :
    Fields.ofStored τ.stored = Fields.ofStored τ'.stored := by
  rw [run_append] at hrun hrun'
  obtain ⟨σ, hσ, hrun⟩ := Option.bind_eq_some_iff.mp hrun
  obtain ⟨hstored, -⟩ := run_reads format hσ
  rw [hσ, Option.bind_some] at hrun'
  by_cases hfull : format.Full σ.stored
  · rw [run_full format hfull, Option.some.injEq] at hrun hrun'
    rw [← hrun, ← hrun']
  · have hst : (format.filled datagram).length < 7 := by
      rw [← hstored]
      exact not_le.mp hfull
    have hfit : TextsFit datagram := by
      rw [textsFit_iff, ← run_isSome_iff, hσ]
      rfl
    rw [run_open hst hfit, Option.some.injEq] at hσ
    subst hσ
    have hp := open_length hst hrun
    have hmatter : ¬ (_ ∨ _ ∨ _) := fun hm => h ⟨hst, hfit, hp, hm⟩
    apply fields_agree hst (by omega) ?_ ?_ hold hold' hrun hrun'
    · by_cases h6 : (format.filled datagram).length = 6
      · exact Or.inl h6
      · right
        refine ⟨?_, fun h2 hlen => hmatter (Or.inr (Or.inr ⟨h2, hlen⟩))⟩
        by_contra hn
        exact hmatter (Or.inr (Or.inl ⟨by omega, by omega⟩))
    · by_contra hn
      simp only [not_or] at hn
      exact hmatter (Or.inl ⟨hn.1, by omega, by omega⟩)

theorem receive_over (temp : Temp) {datagram old : List Byte} (h0 : 0 < datagram.length)
    (h : datagram.length ≤ 254) {buffer : PacketBuffer}
    (hcontents : contents buffer datagram = datagram ++ 0 :: old) :
    (receive buffer temp datagram).map (fun r => r.fields) =
      (format.run ⟨[], []⟩ (datagram ++ 0 :: old)).map (fun σ => Fields.ofStored σ.stored) := by
  rw [receive_fields buffer temp datagram h0 h, hcontents]

theorem not_independent_of_exposed {datagram : List Byte} (h0 : 0 < datagram.length)
    (hexposed : Exposed datagram) : ¬ Independent datagram := by
  have hlen : datagram.length ≤ 253 := by
    obtain ⟨-, -, -, hold⟩ := hexposed
    unfold oldBytes at hold
    omega
  have hrun := run_open hexposed.1 hexposed.2.1
  obtain ⟨old, old', σ, τ, hold, hold', hσ, hτ, hne⟩ := leaks_of_exposed hexposed
  replace hσ : format.run ⟨[], []⟩ (datagram ++ 0 :: (old ++ [0])) = some σ := by
    rw [run_append, hrun, Option.bind_some, hσ]
  replace hτ : format.run ⟨[], []⟩ (datagram ++ 0 :: (old' ++ [0])) = some τ := by
    rw [run_append, hrun, Option.bind_some, hτ]
  obtain ⟨buffer, hholds, hcontents⟩ := holds_of_run hlen hold hσ
  obtain ⟨buffer', hholds', hcontents'⟩ := holds_of_run hlen hold' hτ
  have hr := receive_over (Vector.replicate 20 0) h0 (by omega) hcontents
  have hr' := receive_over (Vector.replicate 20 0) h0 (by omega) hcontents'
  rw [hσ, Option.map_some] at hr
  rw [hτ, Option.map_some] at hr'
  obtain ⟨r, hreceive, hfields⟩ := Option.map_eq_some_iff.mp hr
  obtain ⟨r', hreceive', hfields'⟩ := Option.map_eq_some_iff.mp hr'
  intro hind
  have hsame := (hind buffer buffer' _ _ r r' hholds hholds' hreceive hreceive').1
  rw [hfields, hfields'] at hsame
  exact hne hsame

theorem independent_of_not_exposed {datagram : List Byte} (h0 : 0 < datagram.length)
    (h : datagram.length ≤ 254) (hexposed : ¬ Exposed datagram) : Independent datagram := by
  intro buffer buffer' temp temp' r r' hholds hholds' hr hr'
  have hfields := receive_fields buffer temp datagram h0 h
  have hfields' := receive_fields buffer' temp' datagram h0 h
  rw [hr, Option.map_some] at hfields
  rw [hr', Option.map_some] at hfields'
  obtain ⟨σ, hσ, hr⟩ := Option.map_eq_some_iff.mp hfields.symm
  obtain ⟨τ, hτ, hr'⟩ := Option.map_eq_some_iff.mp hfields'.symm
  have hsame : r.fields = r'.fields := by
    rw [← hr, ← hr']
    by_cases hlen : datagram.length ≤ 253
    · obtain ⟨old, hold, hcontents⟩ := contents_holds hholds hlen
      obtain ⟨old', hold', hcontents'⟩ := contents_holds hholds' hlen
      rw [hcontents] at hσ
      rw [hcontents'] at hτ
      exact fields_of_not_exposed hexposed hold hold' hσ hτ
    · have hcontents : contents buffer datagram = contents buffer' datagram := by
        rw [contents, contents, List.drop_eq_nil_of_le (by simp; omega),
          List.drop_eq_nil_of_le (by simp; omega)]
      rw [hcontents, hτ, Option.some.injEq] at hσ
      rw [hσ]
  exact ⟨hsame, by rw [hsame]⟩

theorem independent_iff (datagram : List Byte) (h0 : 0 < datagram.length)
    (h : datagram.length ≤ 254) : Independent datagram ↔ ¬ Exposed datagram :=
  ⟨fun hind hexposed => not_independent_of_exposed h0 hexposed hind,
    independent_of_not_exposed h0 h⟩

theorem independent_iff_short :
    Independent [49, slash] ↔ ¬ Exposed [49, slash] :=
  independent_iff [49, slash] (by decide) (by decide)

def secondAfter (first : List Byte) : Option Int16 :=
  ((receive (Vector.replicate 255 0) (Vector.replicate 20 0) first).bind
    (fun r => receive r.packetBuffer (Vector.replicate 20 0) [49, slash])).map
    (fun r => r.fields.usAJNT2)

theorem secondAfter_holds {first : List Byte} {v : Int16} (h0 : 0 < first.length)
    (h : secondAfter first = some v) : ∃ buffer r, Holds buffer ∧
      receive buffer (Vector.replicate 20 0) [49, slash] = some r ∧ r.fields.usAJNT2 = v := by
  obtain ⟨r, hr, hv⟩ := Option.map_eq_some_iff.mp h
  obtain ⟨earlier, hearlier, hr⟩ := Option.bind_eq_some_iff.mp hr
  exact ⟨earlier.packetBuffer, r, Holds.boot.receive h0 hearlier, hr, hv⟩

/-- After `"1500/1500/1500/0/0/0/1500/"` the datagram `"1/"` moves joint 2 to 1500, after
`"1400/1600/1700/0/0/0/1300/"` to 1600. -/
theorem leftovers_decoded : secondAfter (message 1500 1500 1500 0 0 0 1500) = some 1500 ∧
    secondAfter (message 1400 1600 1700 0 0 0 1300) = some 1600 ∧
    ¬ Independent [49, slash] := by
  have h : secondAfter (message 1500 1500 1500 0 0 0 1500) = some 1500 := by decide +kernel
  have h' : secondAfter (message 1400 1600 1700 0 0 0 1300) = some 1600 := by decide +kernel
  refine ⟨h, h', fun hind => ?_⟩
  obtain ⟨buffer, r, hholds, hr, hv⟩ := secondAfter_holds (by decide +kernel) h
  obtain ⟨buffer', r', hholds', hr', hv'⟩ := secondAfter_holds (by decide +kernel) h'
  have hsame := (hind buffer buffer' _ _ r r' hholds hholds' hr hr').1
  rw [hsame, hv'] at hv
  exact absurd hv (by decide)

end TitanRover.Arm
