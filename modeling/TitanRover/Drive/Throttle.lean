import TitanRover.Drive.DiffAlg

/-! # The throttle limit of `T16_DiffAlg`

A history is any list of calls on a constructed object. Once `setMaxThrottle` has accepted an input,
the stored one is in range and the throttle is the mapped one (`Accepted`). The jitter test takes
its difference in `uint16_t`, so it holds back jitter towards lower inputs only;
`jitter_ignored_iff` says which jitter never moves the limit. What it holds back is no further than
20 microseconds from the stored input, and the limit tracks the knob (`limit_tracks_knob`). -/
namespace TitanRover.Drive
open TitanRover.Arduino
set_option autoImplicit false

/-! ## Histories -/

/-- A call on the object. -/
inductive Call where
  | setMaxThrottle (z : BitVec 16)
  | calcSpeed (x y : BitVec 16)

namespace T16DiffAlg

/-- The constructor, on whatever the storage of the object held. -/
def construct (storage : T16DiffAlg) : T16DiffAlg :=
  { storage with inputPwmX := 0, inputPwmY := 0, inputPwmMTH := 0 }

def call (d : T16DiffAlg) : Call → T16DiffAlg
  | .setMaxThrottle z => d.setMaxThrottle z
  | .calcSpeed x y => d.calcSpeed x y

def after (storage : T16DiffAlg) (calls : List Call) : T16DiffAlg :=
  calls.foldl call (construct storage)

/-! ## The accepted limit -/

def throttleOf (m : BitVec 16) : ℚ := 1 / 100 * map m.toNat 1000 2000 40 90

/-- `setMaxThrottle` has accepted an input. -/
structure Accepted (d : T16DiffAlg) : Prop where
  low : 1000 ≤ d.inputPwmMTH.toNat
  high : d.inputPwmMTH.toNat ≤ 2000
  throttle : d.maxThrottle = throttleOf d.inputPwmMTH

theorem constrain_pwm_toNat (z : BitVec 16) :
    (constrain z 1000 2000).toNat = max 1000 (min z.toNat 2000) :=
  constrain_toNat z 1000 2000 (by decide)

theorem calcSpeed_inputPwmMTH (d : T16DiffAlg) (x y : BitVec 16) :
    (d.calcSpeed x y).inputPwmMTH = d.inputPwmMTH := by
  unfold calcSpeed
  dsimp only
  split_ifs <;> rfl

theorem setMaxThrottle_cases (d : T16DiffAlg) (z : BitVec 16) :
    ((d.inputPwmMTH - z).toNat ≤ 20 ∧ d.setMaxThrottle z = d) ∨
      (20 < (d.inputPwmMTH - z).toNat ∧
        d.setMaxThrottle z =
          { d with
            inputPwmMTH := constrain z 1000 2000
            maxThrottle := throttleOf (constrain z 1000 2000) }) := by
  unfold setMaxThrottle
  split_ifs with h
  · exact Or.inl ⟨h, rfl⟩
  · exact Or.inr ⟨not_le.mp h, rfl⟩

theorem Accepted.calcSpeed {d : T16DiffAlg} (h : Accepted d) (x y : BitVec 16) :
    Accepted (d.calcSpeed x y) := by
  obtain ⟨hlow, hhigh, ht⟩ := h
  refine ⟨?_, ?_, ?_⟩
  · rwa [calcSpeed_inputPwmMTH]
  · rwa [calcSpeed_inputPwmMTH]
  · rwa [calcSpeed_maxThrottle, calcSpeed_inputPwmMTH]

/-- An input that is not held back is accepted. -/
theorem accepted_constrain (d : T16DiffAlg) (z : BitVec 16) :
    Accepted { d with
      inputPwmMTH := constrain z 1000 2000
      maxThrottle := throttleOf (constrain z 1000 2000) } :=
  ⟨(constrain_pwm_range z).1, (constrain_pwm_range z).2, rfl⟩

theorem call_accepted {d : T16DiffAlg} (h : d.inputPwmMTH ≠ 0 → Accepted d) (c : Call) :
    (d.call c).inputPwmMTH ≠ 0 → Accepted (d.call c) := by
  cases c with
  | calcSpeed x y =>
    intro hm
    change (d.calcSpeed x y).inputPwmMTH ≠ 0 at hm
    rw [calcSpeed_inputPwmMTH] at hm
    exact (h hm).calcSpeed x y
  | setMaxThrottle z =>
    change (d.setMaxThrottle z).inputPwmMTH ≠ 0 → Accepted (d.setMaxThrottle z)
    rcases setMaxThrottle_cases d z with ⟨-, hs⟩ | ⟨-, hs⟩
    · rwa [hs]
    · rw [hs]
      exact fun _ => accepted_constrain d z

/-- What the constructor establishes and every call keeps holds after any history. -/
theorem after_induction {P : T16DiffAlg → Prop} {storage : T16DiffAlg} (h0 : P (construct storage))
    (hcall : ∀ d c, P d → P (d.call c)) (calls : List Call) : P (after storage calls) :=
  calls.foldlRecOn call h0 (fun d hd c _ => hcall d c hd)

theorem after_accepted (storage : T16DiffAlg) (calls : List Call)
    (hm : (after storage calls).inputPwmMTH ≠ 0) : Accepted (after storage calls) :=
  after_induction (P := fun d => d.inputPwmMTH ≠ 0 → Accepted d) (fun h => absurd rfl h)
    (fun _ c h => call_accepted h c) calls hm

/-! ## Jitter -/

/-- A call left the limit alone. -/
structure Unmoved (d d' : T16DiffAlg) : Prop where
  input : d'.inputPwmMTH = d.inputPwmMTH
  throttle : d'.maxThrottle = d.maxThrottle

/-- `z` is within 20 microseconds of `m`. -/
def Near (m z : BitVec 16) : Prop := |(z.toNat : ℤ) - m.toNat| ≤ 20

theorem near_iff (m z : BitVec 16) :
    Near m z ↔ z.toNat ≤ m.toNat + 20 ∧ m.toNat ≤ z.toNat + 20 := by
  rw [Near, abs_le]
  omega

instance (m z : BitVec 16) : Decidable (Near m z) := decidable_of_iff _ (near_iff m z).symm

theorem sub_toNat_le_iff {m z : BitVec 16} (hz : Near m z) : (m - z).toNat ≤ 20 ↔ z ≤ m := by
  rw [near_iff] at hz
  rw [BitVec.toNat_sub, BitVec.le_def]
  omega

/-- The input saturates at the upper end of the range, where jitter moves nothing either. -/
theorem setMaxThrottle_near {d : T16DiffAlg} (h : Accepted d) {z : BitVec 16}
    (hz : Near d.inputPwmMTH z) (hkeep : z ≤ d.inputPwmMTH ∨ d.inputPwmMTH = 2000) :
    d.setMaxThrottle z = d := by
  rcases setMaxThrottle_cases d z with ⟨-, hs⟩ | ⟨hfar, hs⟩
  · exact hs
  · have hup : ¬ z ≤ d.inputPwmMTH := fun hle => by
      have hclose := (sub_toNat_le_iff hz).mpr hle
      omega
    have htop := hkeep.resolve_left hup
    have hsame : constrain z 1000 2000 = d.inputPwmMTH := by
      have hvalue : d.inputPwmMTH.toNat = 2000 := congrArg BitVec.toNat htop
      rw [BitVec.le_def] at hup
      apply BitVec.eq_of_toNat_eq
      rw [constrain_pwm_toNat]
      omega
    rw [hs, hsame, ← h.throttle]

theorem unmoved_iff {d : T16DiffAlg} (h : Accepted d) {z : BitVec 16}
    (hz : Near d.inputPwmMTH z) :
    Unmoved d (d.setMaxThrottle z) ↔ z ≤ d.inputPwmMTH ∨ d.inputPwmMTH = 2000 := by
  constructor
  · intro hu
    by_contra hmove
    rw [not_or, BitVec.le_def] at hmove
    have hup : ¬ (d.inputPwmMTH - z).toNat ≤ 20 := by
      rw [sub_toNat_le_iff hz, BitVec.le_def]
      exact hmove.1
    obtain ⟨-, hs⟩ := (setMaxThrottle_cases d z).resolve_left fun hc => hup hc.1
    have hinput := congrArg BitVec.toNat hu.input
    have htop : d.inputPwmMTH.toNat ≠ 2000 := fun he =>
      hmove.2 (BitVec.eq_of_toNat_eq (he.trans rfl))
    rw [hs, constrain_pwm_toNat] at hinput
    have hhigh := h.high
    omega
  · intro hkeep
    rw [setMaxThrottle_near h hz hkeep]
    exact ⟨rfl, rfl⟩

theorem unmoved_refl (d : T16DiffAlg) : Unmoved d d := ⟨rfl, rfl⟩

theorem jitter_iff {d : T16DiffAlg} (h : Accepted d) {zs : List (BitVec 16)}
    (hz : ∀ z ∈ zs, Near d.inputPwmMTH z) :
    (∀ ws, ws <+: zs → Unmoved d (ws.foldl setMaxThrottle d)) ↔
      ∀ z ∈ zs, z ≤ d.inputPwmMTH ∨ d.inputPwmMTH = 2000 := by
  induction zs with
  | nil =>
    refine iff_of_true (fun ws hws => ?_) (fun z hmem => absurd hmem List.not_mem_nil)
    rw [List.prefix_nil.mp hws]
    exact unmoved_refl d
  | cons z zs ih =>
    have hnear := hz z (List.mem_cons_self ..)
    have hrest := ih fun z' hmem => hz z' (List.mem_cons_of_mem z hmem)
    rw [List.forall_mem_cons, ← hrest, ← unmoved_iff h hnear]
    constructor
    · intro hu
      have hfirst : Unmoved d (d.setMaxThrottle z) := hu [z] ⟨zs, rfl⟩
      have hsame := setMaxThrottle_near h hnear ((unmoved_iff h hnear).mp hfirst)
      refine ⟨hfirst, fun ws hws => ?_⟩
      have hwhole := hu (z :: ws) (List.cons_prefix_cons.mpr ⟨rfl, hws⟩)
      rwa [List.foldl_cons, hsame] at hwhole
    · rintro ⟨hfirst, hu⟩ ws hws
      have hsame := setMaxThrottle_near h hnear ((unmoved_iff h hnear).mp hfirst)
      rcases List.prefix_cons_iff.mp hws with rfl | ⟨t, rfl, ht⟩
      · exact unmoved_refl d
      · rw [List.foldl_cons, hsame]
        exact hu t ht

/-- Jitter around the stored input never moves the limit, at any point of the sequence, exactly
when none of it is above that input, or the input is at the upper end of its range. -/
theorem jitter_ignored_iff (storage : T16DiffAlg) (calls : List Call) {zs : List (BitVec 16)}
    (hm : (after storage calls).inputPwmMTH ≠ 0)
    (hz : ∀ z ∈ zs, Near (after storage calls).inputPwmMTH z) :
    (∀ ws, ws <+: zs →
        Unmoved (after storage calls) (ws.foldl setMaxThrottle (after storage calls))) ↔
      ∀ z ∈ zs, z ≤ (after storage calls).inputPwmMTH ∨
        (after storage calls).inputPwmMTH = 2000 :=
  jitter_iff (after_accepted storage calls hm) hz

theorem jitter_ignored_iff_midway :
    (∀ ws, ws <+: [1490, 1480] → Unmoved (after init [.setMaxThrottle 1500])
        (ws.foldl setMaxThrottle (after init [.setMaxThrottle 1500]))) ↔
      ∀ z ∈ ([1490, 1480] : List (BitVec 16)),
        z ≤ (after init [.setMaxThrottle 1500]).inputPwmMTH ∨
          (after init [.setMaxThrottle 1500]).inputPwmMTH = 2000 := by
  apply jitter_ignored_iff init [.setMaxThrottle 1500] (by decide +kernel)
  rw [List.forall_mem_cons, List.forall_mem_singleton]
  exact ⟨by decide +kernel, by decide +kernel⟩

/-- One microsecond above the stored 1500 moves the limit. -/
theorem jitter_moves_throttle :
    ¬ ∀ (storage : T16DiffAlg) (inputs : List (BitVec 16)) (z : BitVec 16),
      (after storage (inputs.map .setMaxThrottle)).inputPwmMTH ≠ 0 →
      Near (after storage (inputs.map .setMaxThrottle)).inputPwmMTH z →
      Unmoved (after storage (inputs.map .setMaxThrottle))
        ((after storage (inputs.map .setMaxThrottle)).setMaxThrottle z) := by
  intro hall
  have h := (hall init [1500] 1501 (by decide +kernel) (by decide +kernel)).input
  exact absurd h (by decide +kernel)

/-! ## The limit and the knob -/

/-- The percentage that a clamped input asks for. -/
def percentOf (n : ℕ) : ℕ := 40 + (n - 1000) / 20

theorem throttleOf_eq {m : BitVec 16} (h : 1000 ≤ m.toNat) :
    throttleOf m = (percentOf m.toNat : ℚ) / 100 := by
  have hmap : map m.toNat 1000 2000 40 90 = percentOf m.toNat := by
    rw [map, percentOf, Int.tdiv_eq_ediv_of_nonneg (by omega)]
    omega
  rw [throttleOf, hmap, Int.cast_natCast, one_div_mul_eq_div]

/-- Nothing has been accepted yet. -/
structure Unarmed (d : T16DiffAlg) : Prop where
  input : d.inputPwmMTH = 0
  throttle : d.maxThrottle = 0

/-- The limit after the knob has sent `z`. -/
structure TracksKnob (z : BitVec 16) (d : T16DiffAlg) : Prop where
  input_range : 1000 ≤ d.inputPwmMTH.toNat ∧ d.inputPwmMTH.toNat ≤ 2000
  input_close : |(d.inputPwmMTH.toNat : ℤ) - (max 1000 (min z.toNat 2000) : ℕ)| ≤ 20
  throttle : d.maxThrottle = (percentOf d.inputPwmMTH.toNat : ℚ) / 100
  throttle_range : 40 / 100 ≤ d.maxThrottle ∧ d.maxThrottle ≤ 90 / 100
  throttle_close : |d.maxThrottle - (percentOf (max 1000 (min z.toNat 2000)) : ℚ) / 100| ≤ 1 / 100

theorem Accepted.tracksKnob {d : T16DiffAlg} (h : Accepted d) {z : BitVec 16}
    (hclose : |(d.inputPwmMTH.toNat : ℤ) - (max 1000 (min z.toNat 2000) : ℕ)| ≤ 20) :
    TracksKnob z d := by
  have ht : d.maxThrottle = (percentOf d.inputPwmMTH.toNat : ℚ) / 100 :=
    h.throttle.trans (throttleOf_eq h.low)
  have hlow := h.low
  have hhigh := h.high
  have hrange : 40 ≤ percentOf d.inputPwmMTH.toNat ∧ percentOf d.inputPwmMTH.toNat ≤ 90 := by
    unfold percentOf
    omega
  refine ⟨⟨hlow, hhigh⟩, hclose, ht, ?_, ?_⟩
  · have h40 : (40 : ℚ) ≤ percentOf d.inputPwmMTH.toNat := by exact_mod_cast hrange.1
    have h90 : (percentOf d.inputPwmMTH.toNat : ℚ) ≤ 90 := by exact_mod_cast hrange.2
    rw [ht]
    constructor <;> linarith
  · have hpercent : |(percentOf d.inputPwmMTH.toNat : ℤ) -
        percentOf (max 1000 (min z.toNat 2000))| ≤ 1 := by
      rw [abs_le] at hclose ⊢
      unfold percentOf
      omega
    have hcast : |(percentOf d.inputPwmMTH.toNat : ℚ) -
        percentOf (max 1000 (min z.toNat 2000))| ≤ 1 := by exact_mod_cast hpercent
    rw [ht, ← sub_div, abs_div, abs_of_pos (by norm_num : (0 : ℚ) < 100)]
    linarith

/-- An input that is held back is within 20 below the stored one, and the clamp moves it no further
away. -/
theorem held_close {m z : BitVec 16} (hm : 1000 ≤ m.toNat ∧ m.toNat ≤ 2000)
    (h : (m - z).toNat ≤ 20) : |(m.toNat : ℤ) - (max 1000 (min z.toNat 2000) : ℕ)| ≤ 20 := by
  rw [BitVec.toNat_sub] at h
  rw [abs_le]
  omega

theorem setMaxThrottle_tracks {d : T16DiffAlg} (h : Unarmed d ∨ Accepted d) (z : BitVec 16) :
    Unarmed (d.setMaxThrottle z) ∨ TracksKnob z (d.setMaxThrottle z) := by
  rcases setMaxThrottle_cases d z with ⟨hheld, hs⟩ | ⟨-, hs⟩
  · rw [hs]
    exact h.imp id fun ha => ha.tracksKnob (held_close ⟨ha.low, ha.high⟩ hheld)
  · rw [hs]
    refine Or.inr ((accepted_constrain d z).tracksKnob ?_)
    rw [constrain_pwm_toNat, sub_self, abs_zero]
    decide

theorem call_armed {d : T16DiffAlg} (h : Unarmed d ∨ Accepted d) (c : Call) :
    Unarmed (d.call c) ∨ Accepted (d.call c) := by
  cases c with
  | calcSpeed x y =>
    refine h.imp (fun hu => ⟨?_, ?_⟩) fun ha => ha.calcSpeed x y
    · exact (calcSpeed_inputPwmMTH d x y).trans hu.input
    · exact (calcSpeed_maxThrottle d x y).trans hu.throttle
  | setMaxThrottle z =>
    change Unarmed (d.setMaxThrottle z) ∨ Accepted (d.setMaxThrottle z)
    rcases setMaxThrottle_cases d z with ⟨-, hs⟩ | ⟨-, hs⟩
    · rwa [hs]
    · rw [hs]
      exact Or.inr (accepted_constrain d z)

theorem after_armed (calls : List Call) : Unarmed (after init calls) ∨ Accepted (after init calls) :=
  after_induction (P := fun d => Unarmed d ∨ Accepted d) (Or.inl ⟨rfl, rfl⟩)
    (fun _ c h => call_armed h c) calls

/-- Whatever the history of a global object, the limit tracks the knob from the first accepted input
on. -/
theorem limit_tracks_knob (calls : List Call) (z : BitVec 16) :
    Unarmed ((after init calls).setMaxThrottle z) ∨
      TracksKnob z ((after init calls).setMaxThrottle z) :=
  setMaxThrottle_tracks (after_armed calls) z

end T16DiffAlg

end TitanRover.Drive
