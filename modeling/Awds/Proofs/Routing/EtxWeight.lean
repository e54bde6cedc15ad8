import Awds.Lib.Popcount
import Awds.Proofs.Routing.TopoPacket

/-!
# `Awds.Proofs.Routing.EtxWeight`: the weight of a link under `EtxMetric`

A station counts the beacons of a neighbour in its history and announces the number of those
that are missing, scaled to 16 bits. `get_quality` turns the 0 of a perfect link into 1. The
division of `my_calculate` undoes the scaling and the clamp, so the weight of a link only
depends on how many beacons each side has in its history (`etx_weight`).
-/

set_option autoImplicit false

namespace Awds.Proofs

open Awds.Lib Awds.AwdsRouting Awds.AdjList Awds.RTopology

/-! ### One side of a link -/

/-- The number of beacons in a history. -/
def heardCount (hist : UInt32) : Nat := popcount hist.toNat

/-- A history has 32 bits. -/
theorem heardCount_le (hist : UInt32) : heardCount hist ≤ 32 := popcount_le hist.toNat_lt

/-- A history that is not empty has a beacon. -/
theorem heardCount_pos {hist : UInt32} (h : hist ≠ 0) : 0 < heardCount hist :=
  popcount_pos fun h0 => h (UInt32.toNat_inj.mp h0)

/-- The loop takes one bit away in each turn. -/
theorem heardCount_and_pred {x : UInt32} (h : x ≠ 0) :
    heardCount (x &&& (x - 1)) + 1 = heardCount x := by
  have hne : x.toNat ≠ 0 := fun h0 => h (UInt32.toNat_inj.mp h0)
  have hsub : (x - 1).toNat = x.toNat - 1 :=
    UInt32.toNat_sub_of_le x 1 (UInt32.le_iff_toNat_le.mpr (Nat.pos_of_ne_zero hne))
  unfold heardCount
  rw [UInt32.toNat_and, hsub]
  exact popcount_and_pred hne

/-- The loop counts the bits of `x`. -/
theorem qualityLoop_toNat {x : UInt32} {n : UInt8} (hx : x ≠ 0)
    (hn : n.toNat + heardCount x < 2 ^ 8) :
    (NodeDescr.qualityLoop x n).toNat = n.toNat + heardCount x := by
  induction x, n using NodeDescr.qualityLoop.induct with
  | case1 x n rest hrest =>
    -- The bit that was taken away is the last one.
    have hstep := heardCount_and_pred hx
    have hlast : heardCount (x &&& (x - 1)) = 0 := by
      rw [show x &&& (x - 1) = 0 from hrest]
      exact popcount_zero
    rw [NodeDescr.qualityLoop]
    simp only [if_pos (show x &&& (x - 1) = 0 from hrest), UInt8.toNat_add, UInt8.toNat_one]
    omega
  | case2 x n rest hrest ih =>
    have hstep := heardCount_and_pred hx
    have hnext : (n + 1).toNat = n.toNat + 1 := by
      rw [UInt8.toNat_add, UInt8.toNat_one]
      omega
    rw [NodeDescr.qualityLoop]
    simp only [if_neg (show ¬x &&& (x - 1) = 0 from hrest)]
    have hih := ih hrest (by
      show (n + 1).toNat + heardCount (x &&& (x - 1)) < 2 ^ 8
      omega)
    change (NodeDescr.qualityLoop (x &&& (x - 1)) (n + 1)).toNat
      = (n + 1).toNat + heardCount (x &&& (x - 1)) at hih
    omega

section
variable {r s : AwdsRouting} {nd nd' : NodeDescr} {f b : UInt16}

/-- The assertion of `quality` holds for a history that is not empty. -/
theorem quality_eq (h : nd.beaconHist ≠ 0) :
    ∃ n, nd.quality = .ok n ∧ n.toNat = heardCount nd.beaconHist := by
  have hle := heardCount_le nd.beaconHist
  have hpos := heardCount_pos h
  have hloop := qualityLoop_toNat (n := 0) h (by simp; omega)
  rw [UInt8.toNat_zero, Nat.zero_add] at hloop
  refine ⟨_, ?_, hloop⟩
  have hgt : NodeDescr.qualityLoop nd.beaconHist 0 > 0 := by
    rw [gt_iff_lt, UInt8.lt_iff_toNat_lt, hloop]
    exact hpos
  simp only [NodeDescr.quality, if_pos h, if_pos hgt]

/-- The beacons that are missing, scaled. -/
def scaledLoss (hist : UInt32) : Nat := (32 - heardCount hist) * (65535 / 32)

/-- The scaled loss fits in a quality of 16 bits. -/
theorem scaledLoss_lt (hist : UInt32) : scaledLoss hist < 2 ^ 16 := by
  unfold scaledLoss
  omega

/-- The steps of `quality`, `my_get_quality` and `my_calculate` on one side, where `n` beacons
were heard and the quality `q` arrives: each gives the number it stands for. -/
structure SideExact (nd : NodeDescr) (n : UInt8) (q : UInt16) : Prop where
  quality : nd.quality = .ok n
  counter : n.toNat = heardCount nd.beaconHist
  lost : (32 - n.toUInt16 : UInt16).toNat + heardCount nd.beaconHist = 32
  scaled : ((32 - n.toUInt16 : UInt16).toUInt32 * (Metric.maxQuality.toUInt32 / 32)).toNat
    = scaledLoss nd.beaconHist
  fits : scaledLoss nd.beaconHist < 2 ^ 16
  back : (32 - (q / (Metric.maxQuality / 32)).toUInt32 : UInt32).toNat = heardCount nd.beaconHist

/-- The counter of heard beacons does not exceed 32, so the difference is exact. -/
theorem lost_exact {n : UInt8} (hn : n.toNat = heardCount nd.beaconHist) :
    (32 - n.toUInt16 : UInt16).toNat + heardCount nd.beaconHist = 32 := by
  have hle := heardCount_le nd.beaconHist
  rw [UInt16.toNat_sub_of_le _ _ (UInt16.le_iff_toNat_le.mpr (by simp [hn, hle])),
    UInt8.toNat_toUInt16, hn]
  exact Nat.sub_add_cancel hle

/-- The product of the loss and the scale stays in 32 bits. -/
theorem scaled_exact {n : UInt8} (hn : n.toNat = heardCount nd.beaconHist) :
    ((32 - n.toUInt16 : UInt16).toUInt32 * (Metric.maxQuality.toUInt32 / 32)).toNat
      = scaledLoss nd.beaconHist := by
  have hfits := scaledLoss_lt nd.beaconHist
  have hlost : (32 - n.toUInt16 : UInt16).toNat = 32 - heardCount nd.beaconHist :=
    Nat.eq_sub_of_add_eq (lost_exact hn)
  have hscale : (Metric.maxQuality.toUInt32 / 32).toNat = 65535 / 32 := by decide
  rw [UInt32.toNat_mul, UInt16.toNat_toUInt32, hlost, hscale]
  show scaledLoss nd.beaconHist % 2 ^ 32 = scaledLoss nd.beaconHist
  exact Nat.mod_eq_of_lt (by omega)

/-- The quality is the scaled loss. It depends on the history only. -/
theorem myGetQuality_eq (h : nd.beaconHist ≠ 0) :
    ∃ q, EtxMetric.myGetQuality nd = .ok q ∧ q.toNat = scaledLoss nd.beaconHist := by
  obtain ⟨n, hn, hcount⟩ := quality_eq h
  refine ⟨_, by rw [EtxMetric.myGetQuality, hn, except_bind_ok], ?_⟩
  rw [UInt32.toNat_toUInt16, scaled_exact hcount]
  exact Nat.mod_eq_of_lt (scaledLoss_lt _)

/-- The installed metric of a station is `EtxMetric`. -/
def UsesEtx (r : AwdsRouting) : Prop :=
  ∀ nd q, EtxMetric.myGetQuality nd = .ok q → r.myGetQuality nd = q

/-- The quality of a perfect link is 1. -/
theorem getQuality_etx (hr : UsesEtx r) (h : nd.beaconHist ≠ 0) :
    (r.getQuality nd).toNat = max 1 (scaledLoss nd.beaconHist) := by
  obtain ⟨q, hq, hloss⟩ := myGetQuality_eq h
  have hle : q ≤ Metric.maxQuality := by
    rw [UInt16.le_iff_toNat_le]
    exact Nat.le_of_lt_succ q.toNat_lt
  have hmin : min q Metric.maxQuality = q := if_pos hle
  simp only [AwdsRouting.getQuality, hr nd q hq, hmin]
  split
  · rename_i hlt
    rw [UInt16.lt_iff_toNat_lt, hloss] at hlt
    simp only [UInt16.toNat_one] at hlt ⊢
    omega
  · rename_i hge
    rw [UInt16.lt_iff_toNat_lt, hloss, UInt16.toNat_one] at hge
    omega

/-- The division undoes the scaling, and the clamp too. -/
theorem getQuality_div (hr : UsesEtx r) (h : nd.beaconHist ≠ 0) :
    (r.getQuality nd).toNat / (65535 / 32) = 32 - heardCount nd.beaconHist := by
  rw [getQuality_etx hr h]
  unfold scaledLoss
  rcases Nat.eq_zero_or_pos (32 - heardCount nd.beaconHist) with hzero | hpos
  · rw [hzero]
    rfl
  · rw [max_eq_right (by omega)]
    exact Nat.mul_div_cancel _ (by decide)

/-- The difference of `my_calculate` is the number of beacons. -/
theorem back_exact {k : Nat} (hk : k ≤ 32) (hf : f.toNat / (65535 / 32) = 32 - k) :
    (32 - (f / (Metric.maxQuality / 32)).toUInt32 : UInt32).toNat = k := by
  have hdiv : ((f / (Metric.maxQuality / 32)).toUInt32).toNat = 32 - k := by
    rw [UInt16.toNat_toUInt32, UInt16.toNat_div, ← hf]
    rfl
  have h32 : (32 : UInt32).toNat = 32 := rfl
  rw [UInt32.toNat_sub_of_le _ _ (UInt32.le_iff_toNat_le.mpr (by omega)), hdiv, h32]
  omega

/-- On a station with `EtxMetric` each step is exact, and the scale divides out again. -/
theorem sideExact (hr : UsesEtx r) (h : nd.beaconHist ≠ 0) :
    ∃ n, SideExact nd n (r.getQuality nd) := by
  obtain ⟨n, hn, hcount⟩ := quality_eq h
  exact ⟨n, hn, hcount, lost_exact hcount, scaled_exact hcount, scaledLoss_lt _,
    back_exact (heardCount_le _) (getQuality_div hr h)⟩

/-- `f` is what a receiver reads where `r` has written its link to the neighbour. -/
def Announces (r : AwdsRouting) (nd : NodeDescr) (f : UInt16) : Prop :=
  ∀ (buf : Buffer) (addr : Nat), parseLinks (buf.write addr (r.linkBytes nd)) 1 addr none
    = .ok [{ neighbor := nd.id, quality := f }]

/-- Writing a link and reading it back gives its quality. -/
theorem announces_getQuality (r : AwdsRouting) (nd : NodeDescr) :
    Announces r nd (r.getQuality nd) := by
  intro buf addr
  have hread := Buffer.read_write_self buf addr (r.linkBytes nd)
  have hlen : (r.linkBytes nd).length = 8 := by simp [linkBytes]
  rw [hlen] at hread
  exact parseLinks_bytes [(nd.id, r.getQuality nd)] addr none
    (by simpa [bytesOf, linkBytes] using hread) (List.pairwise_singleton _ _) (by simp)
    (by simpa using getQuality_ne_zero r nd)

/-! ### Both sides -/

/-- The weight is between 2048 and 2^21, since each factor is between 1 and 32. -/
theorem weight_bounds {n m : Nat} (hn : 0 < n) (hm : 0 < m) (hn' : n ≤ 32) (hm' : m ≤ 32) :
    2048 ≤ 2 ^ 21 / (n * m) ∧ 2 ^ 21 / (n * m) ≤ 2 ^ 21 := by
  have hprod : n * m ≤ 32 * 32 := Nat.mul_le_mul hn' hm'
  constructor
  · exact (Nat.le_div_iff_mul_le (Nat.mul_pos hn hm)).mpr (by omega)
  · exact Nat.div_le_self _ _

/-- The divisor of `my_calculate`. -/
def etxDivisor (f b : UInt16) : UInt32 :=
  (32 - (f / (Metric.maxQuality / 32)).toUInt32) * (32 - (b / (Metric.maxQuality / 32)).toUInt32)

/-- `my_calculate` on two qualities that stand for `n` and `m` beacons. -/
theorem myCalculate_etx {n m : Nat} (hn : 0 < n) (hm : 0 < m) (hn' : n ≤ 32) (hm' : m ≤ 32)
    (hf : (32 - (f / (Metric.maxQuality / 32)).toUInt32 : UInt32).toNat = n)
    (hb : (32 - (b / (Metric.maxQuality / 32)).toUInt32 : UInt32).toNat = m) :
    (etxDivisor f b).toNat = n * m ∧
      ∃ w, Metric.etxMetric.myCalculate f b = .ok w ∧ w.toNat = 2 ^ 21 / (n * m) := by
  have hprod : n * m ≤ 32 * 32 := Nat.mul_le_mul hn' hm'
  have hpos : 0 < n * m := Nat.mul_pos hn hm
  have hdivisor : (etxDivisor f b).toNat = n * m := by
    rw [etxDivisor, UInt32.toNat_mul, hf, hb]
    exact Nat.mod_eq_of_lt (by omega)
  have hne : etxDivisor f b ≠ 0 := by
    intro h0
    rw [h0, UInt32.toNat_zero] at hdivisor
    omega
  refine ⟨hdivisor, _, if_neg hne, ?_⟩
  show (1024 * 2048 / etxDivisor f b : UInt32).toNat = _
  rw [UInt32.toNat_div, hdivisor]
  rfl

/-- `calculate` gives the weight `w` to each link of quality `f` with a reverse link of quality
`b`, and to the reverse link. -/
def Weighs (m : Metric) (f b : UInt16) (w : UInt32) : Prop :=
  ∀ (adj : AdjList) (it q : LinkPtr) (l l' : LinkQuality), adj.link? it = some l →
    l.quality = f → l.counterpart = some q → adj.link? q = some l' → l'.quality = b →
    ∃ adj', m.calculate adj it = .ok adj' ∧ ∀ p, p = it ∨ p = q →
      (adj'.link? p).map LinkQuality.metricWeight = some w

/-- A weight below the ceiling is stored as it is. -/
theorem weighs_of_myCalculate {m : Metric} {w : UInt32} (h : m.myCalculate f b = .ok w)
    (hw : w ≤ Metric.ceiling) : Weighs m f b w := by
  intro adj it q l l' hit hf hcp hq hb
  subst hf hb
  have hmin : min w Metric.ceiling = w := if_pos hw
  let put : LinkQuality → LinkQuality := fun x => { x with metricWeight := w }
  have h1 := link?_write_self hit put
  -- The reverse link may be the link itself.
  have h2 : ∃ x, (write adj it put).link? q = some x := by
    rw [link?_write, hq]
    split
    · exact ⟨_, rfl⟩
    · exact ⟨_, rfl⟩
  obtain ⟨x, h2⟩ := h2
  refine ⟨write (write adj it put) q put, ?_, ?_⟩
  · simp only [Metric.calculate, getQualities, deref_of_link? hit, except_bind_ok, hcp,
      deref_of_link? hq, h, hmin, setMetricWeight, modifyLink_of_link? hit, deref_of_link? h1, put]
    exact modifyLink_of_link? h2 put
  · rintro p (rfl | rfl)
    · rw [link?_write, h1]
      split
      · rfl
      · rfl
    · rw [link?_write_self h2]
      rfl

/-- For every two neighbours with `EtxMetric` whose histories `x` and `y` are not empty: the
qualities that they announce about each other give the weight `2 ^ 21 / (popcount x * popcount y)`
to the link between them, whichever of its two directions is calculated. The weight is between
2048 and `2 ^ 21`, and no number on the way runs around. -/
theorem etx_weight (hr : UsesEtx r) (hs : UsesEtx s) (hx : nd.beaconHist ≠ 0)
    (hy : nd'.beaconHist ≠ 0) : ∃ f b n m w,
      Announces r nd f ∧ Announces s nd' b ∧
      Weighs .etxMetric f b w ∧ Weighs .etxMetric b f w ∧
      w.toNat = 2 ^ 21 / (popcount nd.beaconHist.toNat * popcount nd'.beaconHist.toNat) ∧
      2048 ≤ w.toNat ∧ w.toNat ≤ 2 ^ 21 ∧
      SideExact nd n f ∧ SideExact nd' m b ∧ (etxDivisor f b).toNat = n.toNat * m.toNat := by
  -- Both quality fields are exact as long as something was heard.
  obtain ⟨n, hn⟩ := sideExact hr hx
  obtain ⟨m, hm⟩ := sideExact hs hy
  have hxle := heardCount_le nd.beaconHist
  have hyle := heardCount_le nd'.beaconHist
  have hxpos := heardCount_pos hx
  have hypos := heardCount_pos hy
  obtain ⟨hdivisor, w, hw, hval⟩ := myCalculate_etx hxpos hypos hxle hyle hn.back hm.back
  -- The other side divides the same two numbers.
  have hsym : Metric.etxMetric.myCalculate (s.getQuality nd') (r.getQuality nd) = .ok w := by
    rw [← hw]
    exact symmetric_of_installed (.inr (.inl rfl)) _ _
  obtain ⟨hlow, hhigh⟩ := weight_bounds hxpos hypos hxle hyle
  rw [← hval] at hlow hhigh
  have hceiling : w ≤ Metric.ceiling := by
    rw [UInt32.le_iff_toNat_le]
    exact hhigh.trans (by decide)
  exact ⟨_, _, n, m, w, announces_getQuality r nd, announces_getQuality s nd',
    weighs_of_myCalculate hw hceiling, weighs_of_myCalculate hsym hceiling, hval, hlow, hhigh,
    hn, hm, by rw [hdivisor, hn.counter, hm.counter]⟩

/-- A station with `EtxMetric`. -/
def etxRouting : AwdsRouting :=
  { pairRouting false with
    myGetQuality := fun nd => match EtxMetric.myGetQuality nd with
      | .ok q => q
      | .error _ => 0 }

/-- The station of the example uses `EtxMetric`. -/
theorem usesEtx_etxRouting : UsesEtx etxRouting := by
  intro nd q hq
  simp [etxRouting, hq]

/-- A link on which one side has all beacons and the other has one. -/
theorem etx_weight_lossy : ∃ f b w, Weighs .etxMetric f b w ∧ Weighs .etxMetric b f w ∧
    w.toNat = 2 ^ 16 := by
  have hx : ({ id := 3, lastBeacon := none, beaconHist := 0xffffffff } : NodeDescr).beaconHist
      ≠ 0 := by decide
  have hy : ({ id := 1, lastBeacon := none, beaconHist := 0x80000000 } : NodeDescr).beaconHist
      ≠ 0 := by decide
  obtain ⟨f, b, -, -, w, -, -, hw, hw', hval, -⟩ :=
    etx_weight usesEtx_etxRouting usesEtx_etxRouting hx hy
  exact ⟨f, b, w, hw, hw', hval.trans (by decide)⟩

end

end Awds.Proofs
