import Mathlib.Data.List.Basic
import TitanRover.Foundations.Decimal
import TitanRover.Foundations.Delimited

/-! # The arm's command receiver

The model of `_2DOF_leap_motion.ino`: `loop` reads one datagram over whatever `packetBuffer` held,
terminates it, and scans the whole buffer for the seven fields. Every array assignment is checked;
`none` is an assignment outside its array. `scan_refines` reduces the scan, with its uncleared
`temp` and its `loopCount`, to a reader of seven slash-delimited fields. -/
namespace TitanRover.Arm
open Foundations Foundations.Delimited
set_option autoImplicit false

abbrev Byte := Decimal.Byte

abbrev Int16 := BitVec 16

def slash : Byte := 47

abbrev PacketBuffer := Vector Byte 255

abbrev Temp := Vector Byte 20

/-- `v[i] = x`. -/
def store {n : ℕ} (v : Vector Byte n) (i : ℤ) (x : Byte) : Option (Vector Byte n) :=
  if h : 0 ≤ i ∧ i < n then some (v.set i.toNat x (by omega)) else none

def atoi (temp : Temp) : Int16 := Decimal.parse 16 temp.toList

structure Fields where
  usAJNT1 : Int16
  usAJNT2 : Int16
  usWRIST : Int16
  usGRIPPER : Int16
  wristOrientation : Int16
  shoulderOrientation : Int16
  lazySusanOrientation : Int16
  deriving DecidableEq

def Fields.initial : Fields where
  usAJNT1 := 0
  usAJNT2 := 0
  usWRIST := 0
  usGRIPPER := 0
  wristOrientation := -1
  shoulderOrientation := -1
  lazySusanOrientation := -1

/-- The chain of tests at a slash. The flag is set by the last branch, which leaves the loop. -/
def Fields.assign (f : Fields) (v : Int16) : Fields × Bool :=
  if f.usAJNT1 = 0 then ({ f with usAJNT1 := v }, false)
  else if f.usAJNT2 = 0 then ({ f with usAJNT2 := v }, false)
  else if f.usWRIST = 0 then ({ f with usWRIST := v }, false)
  else if f.wristOrientation = -1 then ({ f with wristOrientation := v }, false)
  else if f.shoulderOrientation = -1 then ({ f with shoulderOrientation := v }, false)
  else if f.lazySusanOrientation = -1 then ({ f with lazySusanOrientation := v }, false)
  else ({ f with usGRIPPER := v }, true)

structure Scan where
  temp : Temp
  loopCount : ℕ
  fields : Fields

/-- `strcpy(temp, "")`. -/
def clear (temp : Temp) : Temp := temp.set 0 0

/-- The body of the scanning loop at index `i`, where `packetBuffer[i]` is `b`. The flag says that
it broke out of the loop. -/
def scanStep (i : ℕ) (b : Byte) (s : Scan) : Option (Scan × Bool) :=
  match store s.temp ((i : ℤ) - s.loopCount) b with
  | none => none
  | some temp =>
    if b = slash then
      let (fields, done) := s.fields.assign (atoi temp)
      if done then some ({ s with temp, fields }, true)
      else some ({ temp := clear temp, loopCount := i + 1, fields }, false)
    else some ({ s with temp }, false)

/-- The scanning loop from index `i` on, over the bytes of `packetBuffer` from there. It returns
the index at which it stopped. -/
def scan (i : ℕ) : List Byte → Scan → Option (Scan × ℕ)
  | [], s => some (s, i)
  | b :: bs, s =>
    match scanStep i b s with
    | none => none
    | some (s', true) => some (s', i)
    | some (s', false) => scan (i + 1) bs s'

/-- `Udp.read(packetBuffer, 255)`: the buffer and the number of bytes read. -/
def udpRead (packetBuffer : PacketBuffer) (datagram : List Byte) : PacketBuffer × ℕ :=
  (Vector.ofFn (fun i => datagram.getD i packetBuffer[i]), min datagram.length 255)

structure Received where
  packetBuffer : PacketBuffer
  fields : Fields
  stop : ℕ

def receive (packetBuffer : PacketBuffer) (temp : Temp) (datagram : List Byte) :
    Option Received :=
  let (buffer, len) := udpRead packetBuffer datagram
  match (if 0 < len then store buffer len 0 else some buffer) with
  | none => none
  | some buffer =>
    match scan 0 buffer.toList { temp, loopCount := 0, fields := .initial } with
    | none => none
    | some (s, stop) => some { packetBuffer := buffer, fields := s.fields, stop }

/-! ## The commands issued -/

structure Commands where
  armJoint1 : BitVec 16
  armJoint2 : BitVec 16
  wristJoint : BitVec 16
  gripperJoint : BitVec 16
  /-- The byte written to the I2C device 8. -/
  shoulder : BitVec 8
  /-- The byte written to the I2C device 9. -/
  lazySusan : BitVec 8
  deriving DecidableEq

def Fields.commands (f : Fields) : Commands where
  armJoint1 := f.usAJNT1
  armJoint2 := f.usAJNT2
  wristJoint := f.usWRIST
  gripperJoint := f.usGRIPPER
  shoulder := f.shoulderOrientation.setWidth 8
  lazySusan := f.lazySusanOrientation.setWidth 8

/-- One iteration of `loop`; `none` inside is an iteration that found no packet. -/
def loop (packetBuffer : PacketBuffer) (temp : Temp) (packet : List Byte) :
    Option (PacketBuffer × Option Commands) :=
  if packet.length = 0 then some (packetBuffer, none)
  else (receive packetBuffer temp packet).map
    (fun r => (r.packetBuffer, some r.fields.commands))

/-! ## The seven fields as slots -/

/-- The value that slot `k` holds while it is not read. -/
def sentinel (k : ℕ) : Int16 := if 3 ≤ k ∧ k < 6 then -1 else 0

def format : Format Byte Int16 where
  delimiter := slash
  value := Decimal.parse 16
  closes := fun k v => decide (v ≠ sentinel k ∨ k = 6)
  slots := 7
  capacity := 20

def Fields.ofStored (st : List Int16) : Fields where
  usAJNT1 := st.getD 0 0
  usAJNT2 := st.getD 1 0
  usWRIST := st.getD 2 0
  wristOrientation := st.getD 3 (-1)
  shoulderOrientation := st.getD 4 (-1)
  lazySusanOrientation := st.getD 5 (-1)
  usGRIPPER := st.getD 6 0

/-- No slot from `k` on holds the mark of an unread slot. -/
def Closed : ℕ → List Int16 → Prop
  | _, [] => True
  | k, v :: st => v ≠ sentinel k ∧ Closed (k + 1) st

theorem closed_append_singleton (k : ℕ) (st : List Int16) (v : Int16) :
    Closed k (st ++ [v]) ↔ Closed k st ∧ v ≠ sentinel (k + st.length) := by
  induction st generalizing k with
  | nil => simp [Closed]
  | cons a st ih =>
    have hk : k + 1 + st.length = k + (st.length + 1) := by omega
    simp only [List.cons_append, Closed, ih, List.length_cons, hk, and_assoc]

theorem ofStored_append_sentinel {st : List Int16} (h : st.length ≤ 6) :
    Fields.ofStored (st ++ [sentinel st.length]) = Fields.ofStored st := by
  match st with
  | [] | [_] | [_, _] | [_, _, _] | [_, _, _, _] | [_, _, _, _, _] | [_, _, _, _, _, _] => rfl
  | _ :: _ :: _ :: _ :: _ :: _ :: _ :: _ =>
    simp only [List.length_cons] at h
    omega

theorem assign_ofStored {st : List Int16} (h : st.length ≤ 6) (hclosed : Closed 0 st)
    (v : Int16) : (Fields.ofStored st).assign v =
      (Fields.ofStored (st ++ [v]), decide (st.length = 6)) := by
  match st with
  | [] => simp [Fields.assign, Fields.ofStored]
  | [a] | [a, b] | [a, b, c] | [a, b, c, d] | [a, b, c, d, e] | [a, b, c, d, e, f] =>
    simp only [Closed, sentinel] at hclosed
    simp_all [Fields.assign, Fields.ofStored]
  | _ :: _ :: _ :: _ :: _ :: _ :: _ :: _ =>
    simp only [List.length_cons] at h
    omega

theorem ofStored_close {st : List Int16} (h : st.length ≤ 6) (t : List Byte) :
    Fields.ofStored (format.close st t) = Fields.ofStored (st ++ [Decimal.parse 16 t]) := by
  unfold Format.close
  split
  · rfl
  · next hc =>
    have hv : Decimal.parse 16 t = sentinel st.length := by
      by_contra hne
      exact hc (by simp [format, hne])
    change _ = Fields.ofStored (st ++ [Decimal.parse 16 t])
    rw [hv, ofStored_append_sentinel h]

theorem closed_close {st : List Int16} (h : st.length < 6) (hclosed : Closed 0 st)
    (t : List Byte) : Closed 0 (format.close st t) := by
  have h6 : st.length ≠ 6 := by omega
  unfold Format.close
  split
  · next hc =>
    rw [closed_append_singleton, Nat.zero_add]
    exact ⟨hclosed, by simpa [format, h6] using hc⟩
  · exact hclosed

theorem format_delimiter : format.delimiter = slash := rfl

theorem full_iff (st : List Int16) : format.Full st ↔ 7 ≤ st.length := Iff.rfl

theorem full_close_iff {st : List Int16} (h : st.length ≤ 6) (t : List Byte) :
    format.Full (format.close st t) ↔ st.length = 6 := by
  unfold Format.close Format.Full
  by_cases h6 : st.length = 6
  · simp [format, h6]
  · have hlt : st.length + 1 < 7 := by omega
    split <;> simp [format, h6] <;> omega

/-! ## The arrays -/

theorem store_toList {n : ℕ} (v : Vector Byte n) {k : ℕ} (h : k < n) (x : Byte) :
    ∃ v', store v k x = some v' ∧
      v'.toList = v.toList.take k ++ x :: v.toList.drop (k + 1) := by
  refine ⟨v.set k x h, ?_, ?_⟩
  · rw [store, dif_pos ⟨by omega, by exact_mod_cast h⟩]
    rfl
  · rw [Vector.toList_set, List.set_eq_take_append_cons_drop, if_pos (by simpa using h)]

theorem store_outside {n : ℕ} (v : Vector Byte n) {k : ℕ} (h : ¬ k < n) (x : Byte) :
    store v k x = none := by
  rw [store, dif_neg (by omega)]

/-! ## The scan reads the fields -/

/-- `temp` holds the pending text from its start on, and the fields hold the slots. -/
structure Reads (i : ℕ) (s : Scan) (σ : State Byte Int16) : Prop where
  position : i = s.loopCount + σ.pending.length
  text : s.temp.toList.take σ.pending.length = σ.pending
  fields : s.fields = .ofStored σ.stored
  unread : σ.stored.length ≤ 6
  closed : Closed 0 σ.stored

theorem stops_slash : Decimal.Stops slash := by decide

theorem stops_zero : Decimal.Stops 0 := by decide

theorem scanStep_refines {i : ℕ} {s : Scan} {σ : State Byte Int16} (h : Reads i s σ) (b : Byte) :
    match format.step σ b with
    | none => scanStep i b s = none
    | some σ' => ∃ s', scanStep i b s = some (s', decide (format.Full σ'.stored)) ∧
        s'.fields = .ofStored σ'.stored ∧
        (¬ format.Full σ'.stored → Reads (i + 1) s' σ') := by
  have hopen : ¬ format.Full σ.stored := by
    have hlen := h.unread
    rw [full_iff]
    omega
  have hindex : (i : ℤ) - s.loopCount = σ.pending.length := by
    have hi := h.position
    omega
  unfold scanStep
  rw [hindex]
  by_cases hcap : σ.pending.length < format.capacity
  · obtain ⟨temp, hstore, htemp⟩ := store_toList s.temp hcap b
    rw [h.text] at htemp
    by_cases hb : b = slash
    · have hstep : format.step σ b = some ⟨format.close σ.stored σ.pending, []⟩ := by
        rw [hb]
        exact step_delimiter format hopen hcap
      have hatoi : atoi temp = Decimal.parse 16 σ.pending := by
        rw [atoi, htemp, hb, Decimal.parse_stop stops_slash]
      have hassign := assign_ofStored h.unread h.closed (atoi temp)
      rw [hatoi, ← ofStored_close h.unread] at hassign
      simp only [hstep, hstore, if_pos hb, h.fields, hatoi, hassign]
      by_cases h6 : σ.stored.length = 6
      · have hfull := (full_close_iff h.unread σ.pending).mpr h6
        refine ⟨⟨temp, s.loopCount, .ofStored (format.close σ.stored σ.pending)⟩,
          by simp [h6, hfull], rfl, fun hn => absurd hfull hn⟩
      · have hfull : ¬ format.Full (format.close σ.stored σ.pending) :=
          fun hf => h6 ((full_close_iff h.unread σ.pending).mp hf)
        have hlt : σ.stored.length < 6 := by
          have hlen := h.unread
          omega
        refine ⟨⟨clear temp, i + 1, .ofStored (format.close σ.stored σ.pending)⟩,
          by simp [h6, hfull], rfl, fun _ => ?_⟩
        refine ⟨rfl, by simp, rfl, ?_, closed_close hlt h.closed σ.pending⟩
        exact Nat.lt_succ_iff.mp (not_le.mp hfull)
    · have hstep : format.step σ b = some ⟨σ.stored, σ.pending ++ [b]⟩ :=
        step_text format hopen hcap hb
      simp only [hstep, hstore, if_neg hb]
      refine ⟨⟨temp, s.loopCount, s.fields⟩, by simp [hopen, h.fields], h.fields,
        fun _ => ⟨?_, ?_, h.fields, h.unread, h.closed⟩⟩
      · have hi := h.position
        simp only [List.length_append, List.length_singleton]
        omega
      · have htake : temp.toList =
            (σ.pending ++ [b]) ++ s.temp.toList.drop (σ.pending.length + 1) := by
          rw [htemp, List.append_assoc, List.singleton_append]
        rw [htake]
        exact List.take_left
  · rw [step_overrun format hopen hcap, store_outside s.temp hcap b]

/-- The scan refines the reader: it leaves its arrays on the same bytes, and decodes the same
fields. -/
theorem scan_refines {i : ℕ} {s : Scan} {σ : State Byte Int16} (h : Reads i s σ)
    (bs : List Byte) :
    (scan i bs s).map (fun r => r.1.fields) =
      (format.run σ bs).map (fun σ' => Fields.ofStored σ'.stored) := by
  induction bs generalizing i s σ with
  | nil => simp [scan, h.fields]
  | cons b bs ih =>
    have hstep := scanStep_refines h b
    rw [scan, run_cons]
    cases hσ : format.step σ b with
    | none =>
      rw [hσ] at hstep
      simp [hstep]
    | some σ' =>
      rw [hσ] at hstep
      obtain ⟨s', hs', hfields, hreads⟩ := hstep
      rw [hs']
      by_cases hfull : format.Full σ'.stored
      · simp [hfull, hfields, run_full format hfull]
      · simpa [hfull] using ih (hreads hfull)

theorem scan_append {i : ℕ} {s : Scan} {σ σ' : State Byte Int16} (h : Reads i s σ)
    (xs ys : List Byte) (hrun : format.run σ xs = some σ') (hopen : ¬ format.Full σ'.stored) :
    ∃ s', scan i (xs ++ ys) s = scan (i + xs.length) ys s' ∧ Reads (i + xs.length) s' σ' := by
  induction xs generalizing i s σ with
  | nil =>
    rw [run_nil, Option.some.injEq] at hrun
    subst hrun
    exact ⟨s, rfl, h⟩
  | cons x xs ih =>
    rw [run_cons] at hrun
    obtain ⟨σ₁, hσ₁, hrun⟩ := Option.bind_eq_some_iff.mp hrun
    have hstep := scanStep_refines h x
    rw [hσ₁] at hstep
    obtain ⟨s₁, hs₁, -, hreads⟩ := hstep
    have hopen₁ : ¬ format.Full σ₁.stored := by
      intro hfull
      rw [run_full format hfull, Option.some.injEq] at hrun
      exact hopen (hrun ▸ hfull)
    obtain ⟨s', hscan, hs'⟩ := ih (hreads hopen₁) hrun
    have hindex : i + (x :: xs).length = i + 1 + xs.length := by
      rw [List.length_cons]
      omega
    refine ⟨s', ?_, hindex ▸ hs'⟩
    rw [List.cons_append, scan, hs₁, hindex, ← hscan]
    simp [hopen₁]

/-! ## The buffer that is scanned -/

/-- What the terminated `packetBuffer` holds after a datagram is read over it. -/
def contents (packetBuffer : PacketBuffer) (datagram : List Byte) : List Byte :=
  datagram ++ 0 :: packetBuffer.toList.drop (datagram.length + 1)

theorem udpRead_toList (packetBuffer : PacketBuffer) {datagram : List Byte}
    (h : datagram.length ≤ 255) : (udpRead packetBuffer datagram).1.toList =
      datagram ++ packetBuffer.toList.drop datagram.length := by
  apply List.ext_getElem
  · simp [udpRead]
    omega
  · intro k hk hk'
    by_cases hlt : k < datagram.length
    · simp [udpRead, hlt]
    · simp [udpRead, hlt, List.getElem_append_right (Nat.le_of_not_lt hlt)]
      congr 1
      omega

theorem reads_initial (temp : Temp) :
    Reads 0 { temp, loopCount := 0, fields := .initial } ⟨[], []⟩ :=
  ⟨rfl, rfl, rfl, by simp, trivial⟩

theorem receive_eq (packetBuffer : PacketBuffer) (temp : Temp) (datagram : List Byte)
    (h0 : 0 < datagram.length) (h : datagram.length ≤ 254) :
    ∃ buffer : PacketBuffer, buffer.toList = contents packetBuffer datagram ∧
      receive packetBuffer temp datagram =
        (scan 0 (contents packetBuffer datagram)
          { temp, loopCount := 0, fields := .initial }).map
          (fun r => { packetBuffer := buffer, fields := r.1.fields, stop := r.2 }) := by
  obtain ⟨buffer, hstore, hlist⟩ :=
    store_toList (udpRead packetBuffer datagram).1 (k := datagram.length) (by omega) 0
  have hcontents : buffer.toList = contents packetBuffer datagram := by
    rw [hlist, udpRead_toList packetBuffer (by omega), contents]
    simp
  refine ⟨buffer, hcontents, ?_⟩
  have hlen : (udpRead packetBuffer datagram).2 = datagram.length := by
    simp [udpRead]
    omega
  unfold receive
  simp only [hlen, if_pos h0, hstore, hcontents]
  cases scan 0 (contents packetBuffer datagram)
    { temp, loopCount := 0, fields := .initial } <;> rfl

theorem receive_fields (packetBuffer : PacketBuffer) (temp : Temp) (datagram : List Byte)
    (h0 : 0 < datagram.length) (h : datagram.length ≤ 254) :
    (receive packetBuffer temp datagram).map (fun r => r.fields) =
      (format.run ⟨[], []⟩ (contents packetBuffer datagram)).map
        (fun σ => Fields.ofStored σ.stored) := by
  obtain ⟨buffer, -, hreceive⟩ := receive_eq packetBuffer temp datagram h0 h
  rw [hreceive, Option.map_map, ← scan_refines (reads_initial temp)]
  rfl

theorem receive_long (packetBuffer : PacketBuffer) (temp : Temp) {datagram : List Byte}
    (h : 254 < datagram.length) : receive packetBuffer temp datagram = none := by
  have hlen : (udpRead packetBuffer datagram).2 = 255 := by
    simp [udpRead]
    omega
  have hstore : store (udpRead packetBuffer datagram).1 (255 : ℕ) 0 = none :=
    store_outside _ (by omega) 0
  unfold receive
  simp only [hlen, hstore]
  rfl

end TitanRover.Arm
