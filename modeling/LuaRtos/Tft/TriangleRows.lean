/-
  LuaRtos.Tft.TriangleRows

  The rows of TFT_fillTriangle against the edges of the triangle, for vertices that are not on
  one line.
-/

import LuaRtos.Tft.Triangle

namespace LuaRtos.Tft

open LuaRtos.CLib

/-! ## The edges of the vertices -/

section Edges

variable {v w v0 v1 v2 : Vertex} {vs vs' : List Vertex} {x y : Int}

theorem mem_three : v ∈ [v0, v1, v2] ↔ v = v0 ∨ v = v1 ∨ v = v2 := by
  simp only [List.mem_cons, List.not_mem_nil, or_false]

theorem lineX_top (v w : Vertex) : lineX v w v.y.toInt = v.x.toInt := by
  rw [lineX, Int.sub_self, Int.mul_zero, Int.zero_tdiv, Int.add_zero]

theorem lineX_bottom (h : v.y.toInt < w.y.toInt) : lineX v w w.y.toInt = w.x.toInt := by
  rw [lineX, Int.mul_tdiv_cancel _ (by omega)]
  omega

theorem lineX_level (h : v.y.toInt = w.y.toInt) : lineX v w y = v.x.toInt := by
  rw [lineX, h, Int.sub_self, Int.tdiv_zero, Int.add_zero]

theorem crosses_perm (h : vs.Perm vs') : Crosses vs = Crosses vs' := by
  funext y x
  unfold Crosses
  simp only [h.mem_iff]

theorem crosses_vertex (h : v ∈ vs) : Crosses vs v.y.toInt v.x.toInt :=
  ⟨v, h, v, h, ⟨Int.le_refl _, Int.le_refl _⟩, (lineX_top v v).symm⟩

theorem sideX_upper (h : y ≤ upperLast v1 v2) : sideX v0 v1 v2 y = lineX v0 v1 y := if_pos h

theorem sideX_lower (h : upperLast v1 v2 < y) : sideX v0 v1 v2 y = lineX v1 v2 y :=
  if_neg (by omega)

/-- The short edges meet in the vertex between. -/
theorem sideX_middle (v1 : Vertex) (hdown : v0.y.toInt < v2.y.toInt) :
    sideX v0 v1 v2 v1.y.toInt = v1.x.toInt := by
  obtain ⟨-, -, hflat⟩ := upperLast_bounds v1 v2
  by_cases hbottom : v1.y = v2.y
  · have hlast := hflat.mpr hbottom
    rw [sideX_upper (by omega)]
    rw [← hbottom] at hdown
    exact lineX_bottom hdown
  · rw [sideX_lower, lineX_top]
    have hne := mt hflat.mp hbottom
    have hbounds := upperLast_bounds v1 v2
    omega

/-- The two crossings of each row of sorted vertices. -/
theorem crosses_sorted (hupper : v0.y.toInt ≤ v1.y.toInt) (hlower : v1.y.toInt ≤ v2.y.toInt)
    (hdown : v0.y.toInt < v2.y.toInt) :
    Crosses [v0, v1, v2] y x ↔ (v0.y.toInt ≤ y ∧ y ≤ v2.y.toInt) ∧
      (x = sideX v0 v1 v2 y ∨ x = lineX v0 v2 y) := by
  have hmiddle := sideX_middle v1 hdown
  obtain ⟨hlast, hlast', hflat⟩ := upperLast_bounds v1 v2
  constructor
  · rintro ⟨v, hv, w, hw, hy, rfl⟩
    rcases mem_three.mp hv with rfl | rfl | rfl
    · rcases mem_three.mp hw with rfl | rfl | rfl
      · obtain rfl : y = w.y.toInt := by omega
        refine ⟨by omega, .inr ?_⟩
        rw [lineX_top, lineX_top]
      · refine ⟨by omega, ?_⟩
        by_cases hy' : y ≤ upperLast w v2
        · exact .inl (sideX_upper hy').symm
        · obtain rfl : y = w.y.toInt := by omega
          rw [hmiddle]
          rcases Int.lt_or_eq_of_le hupper with hlt | heq
          · exact .inl (lineX_bottom hlt)
          · right
            rw [← heq, lineX_top, lineX_top]
      · exact ⟨by omega, .inr rfl⟩
    · rcases mem_three.mp hw with rfl | rfl | rfl
      · obtain rfl : y = v.y.toInt := by omega
        refine ⟨by omega, .inl ?_⟩
        rw [hmiddle, lineX_top]
      · obtain rfl : y = w.y.toInt := by omega
        refine ⟨by omega, .inl ?_⟩
        rw [hmiddle, lineX_top]
      · refine ⟨by omega, .inl ?_⟩
        by_cases hy' : y ≤ upperLast v w
        · obtain rfl : y = v.y.toInt := by omega
          rw [hmiddle, lineX_top]
        · exact (sideX_lower (by omega)).symm
    · rcases mem_three.mp hw with rfl | rfl | rfl
      · omega
      · obtain rfl : y = v.y.toInt := by omega
        refine ⟨by omega, .inr ?_⟩
        rw [lineX_top, lineX_bottom hdown]
      · obtain rfl : y = w.y.toInt := by omega
        refine ⟨by omega, .inr ?_⟩
        rw [lineX_top, lineX_bottom hdown]
  · rintro ⟨hy, rfl | rfl⟩
    · by_cases hy' : y ≤ upperLast v1 v2
      · exact ⟨v0, by simp, v1, by simp, by omega, sideX_upper hy'⟩
      · refine ⟨v1, by simp, v2, by simp, ⟨?_, hy.2⟩, sideX_lower (by omega)⟩
        omega
    · exact ⟨v0, by simp, v2, by simp, hy, rfl⟩

/-- A row is between its two crossings. -/
theorem spanned_sorted (hupper : v0.y.toInt ≤ v1.y.toInt) (hlower : v1.y.toInt ≤ v2.y.toInt)
    (hdown : v0.y.toInt < v2.y.toInt) (px py : Int) :
    Spanned [v0, v1, v2] px py ↔ (v0.y.toInt ≤ py ∧ py ≤ v2.y.toInt) ∧
      spanLeft v0 v1 v2 py ≤ px ∧ px ≤ spanRight v0 v1 v2 py := by
  unfold Spanned spanLeft spanRight
  simp only [crosses_sorted hupper hlower hdown]
  constructor
  · rintro ⟨x, x', ⟨hy, hx⟩, ⟨-, hx'⟩, hpx, hpx'⟩
    refine ⟨hy, ?_⟩
    omega
  · rintro ⟨hy, hpx, hpx'⟩
    refine ⟨min (sideX v0 v1 v2 py) (lineX v0 v2 py), max (sideX v0 v1 v2 py) (lineX v0 v2 py),
      ⟨hy, ?_⟩, ⟨hy, ?_⟩, hpx, hpx'⟩
    · omega
    · omega

end Edges

/-! ## The pixels -/

section Pixels

variable {s : Screen} {win : DispWin s} {color : BitVec 16} {v w v0 v1 v2 : Vertex}
  {vs vs' : List Vertex} {y : Int}

theorem lineX_fits (hy : v.y.toInt ≤ y ∧ y ≤ w.y.toInt) : Int16 (lineX v w y) := by
  have hv := toInt_int16 v.x
  have hw := toInt_int16 w.x
  rcases Int.lt_or_eq_of_le (Int.le_trans hy.1 hy.2) with hdown | hlevel
  · have hbetween := lineX_between hy hdown
    unfold Int16 at *
    omega
  · rwa [lineX_level hlevel]

/-- Both ends of a row are coordinates. -/
theorem span_fits (v1 : Vertex) (hy : v0.y.toInt ≤ y ∧ y ≤ v2.y.toInt) :
    Int16 (spanLeft v0 v1 v2 y) ∧ Int16 (spanRight v0 v1 v2 y) ∧
      spanLeft v0 v1 v2 y ≤ spanRight v0 v1 v2 y := by
  have hlong : Int16 (lineX v0 v2 y) := lineX_fits hy
  have hside : Int16 (sideX v0 v1 v2 y) := by
    have hlast := upperLast_bounds v1 v2
    by_cases hupper : y ≤ upperLast v1 v2
    · rw [sideX_upper hupper]
      exact lineX_fits ⟨hy.1, by omega⟩
    · rw [sideX_lower (by omega)]
      exact lineX_fits ⟨by omega, hy.2⟩
  unfold spanLeft spanRight Int16 at *
  omega

/-- The call for a row of the triangle. -/
def spanRow (win : DispWin s) (v0 v1 v2 : Vertex) (color : BitVec 16) (y : Int) : Option Sent :=
  drawFastHLine win (arg16 (spanLeft v0 v1 v2 y)) (arg16 y)
    (arg16 (spanRight v0 v1 v2 y - spanLeft v0 v1 v2 y + 1)) color

theorem spanRow_upper (h : y ≤ upperLast v1 v2) :
    spanRow win v0 v1 v2 color y = fillRow win v0 v1 v0 v2 color y := by
  unfold spanRow spanLeft spanRight fillRow rowWidth
  rw [sideX_upper h]

theorem spanRow_lower (h : upperLast v1 v2 < y) :
    spanRow win v0 v1 v2 color y = fillRow win v1 v2 v0 v2 color y := by
  unfold spanRow spanLeft spanRight fillRow rowWidth
  rw [sideX_lower h]

theorem shows_triangleRows (h : RowsFit v0 v1 v2) (hne : v0.y ≠ v2.y) (px py : Int) :
    Shows (triangleRows win v0 v1 v2 color) px py ↔
      ∃ y, (v0.y.toInt ≤ y ∧ y ≤ v2.y.toInt) ∧ Changes (spanRow win v0 v1 v2 color y) px py := by
  obtain ⟨hlast, hlast', -⟩ := upperLast_bounds v1 v2
  have hupper := h.upper
  have hlower := h.lower
  have hrows := toInt_inj_of_ne hne
  unfold triangleRows
  rw [shows_append, shows_fillRowsFrom, shows_fillRowsFrom]
  constructor
  · rintro (⟨k, hk, hchanges⟩ | ⟨k, hk, hchanges⟩)
    · refine ⟨k, by omega, ?_⟩
      rwa [spanRow_upper (by omega)]
    · refine ⟨k, by omega, ?_⟩
      rwa [spanRow_lower (by omega)]
  · rintro ⟨k, hk, hchanges⟩
    by_cases hpart : k ≤ upperLast v1 v2
    · rw [spanRow_upper hpart] at hchanges
      exact .inl ⟨k, by omega, hchanges⟩
    · rw [spanRow_lower (by omega)] at hchanges
      exact .inr ⟨k, by omega, hchanges⟩

/-- A row that reaches the window is drawn right, and one that does not shows the first pixel of
    the window in its row. -/
theorem spanRow_changes (win : DispWin s) (color : BitVec 16) (h : RowsFit v0 v1 v2)
    (hy : v0.y.toInt ≤ y ∧ y ≤ v2.y.toInt) :
    (∀ px py, Changes (spanRow win v0 v1 v2 color y) px py → py = y) ∧
    (win.x1 ≤ spanRight v0 v1 v2 y → ∀ px py, Changes (spanRow win v0 v1 v2 color y) px py ↔
      (py = y ∧ spanLeft v0 v1 v2 y ≤ px ∧ px ≤ spanRight v0 v1 v2 y) ∧ win.Inside px py) ∧
    (spanRight v0 v1 v2 y < win.x1 → win.y1 ≤ y → y ≤ win.y2 →
      Changes (spanRow win v0 v1 v2 color y) win.x1 y) := by
  have hwidth := h.widths y hy.1 hy.2
  obtain ⟨hleft, hright, hle⟩ := span_fits v1 hy
  have htop := h.top
  have hbottom := h.bottom
  have hcols := win.columns
  have hscreen := s.width_bounds
  unfold Int16 at hwidth hleft hright
  unfold spanRow
  generalize spanLeft v0 v1 v2 y = a at *
  generalize spanRight v0 v1 v2 y = b at *
  have hx : (arg16 a).toInt = a := arg16_toInt (by omega) (by omega)
  have hy' : (arg16 y).toInt = y := arg16_toInt (by omega) (by omega)
  have hw : (arg16 (b - a + 1)).toInt = b - a + 1 := arg16_toInt (by omega) (by omega)
  have hchanges := drawFastHLine_changes win (arg16 a) (arg16 y) (arg16 (b - a + 1)) color
  rw [hx, hy', hw] at hchanges
  refine ⟨fun px py hpx => ((hchanges px py).mp hpx).2.1, ?_, ?_⟩
  · intro hreach px py
    rw [hchanges]
    constructor
    · rintro ⟨hrow, rfl, hpx, hpx'⟩
      have hend := clipAxis_end (n := b - a + 1) hcols.1 ⟨hcols.2.1, by omega⟩ hrow.2.2
        (by omega) (by omega)
      rw [if_neg (by omega)] at hend
      rw [hend] at hpx'
      unfold DispWin.Inside
      omega
    · rintro ⟨⟨rfl, hpx, hpx'⟩, hin⟩
      unfold DispWin.Inside at hin
      have hend := clipAxis_end (n := b - a + 1) hcols.1 ⟨hcols.2.1, by omega⟩
        (show a ≤ win.x2 by omega) (by omega) (by omega)
      rw [if_neg (by omega)] at hend
      rw [hend]
      omega
  · intro hout hrow hrow'
    rw [hchanges]
    obtain ⟨hstart, hpos, -⟩ := clipAxis_bounds (n := b - a + 1) hcols.1
      ⟨hcols.2.1, by omega⟩ (show a ≤ win.x2 by omega)
    omega

/-- The rows are the triangle just where each in the window reaches it. -/
theorem triangleRows_iff (h : RowsFit v0 v1 v2) (hne : v0.y ≠ v2.y) :
    (∀ px py, Shows (triangleRows win v0 v1 v2 color) px py ↔
      Spanned [v0, v1, v2] px py ∧ win.Inside px py) ↔
    ∀ y, v0.y.toInt ≤ y → y ≤ v2.y.toInt → win.y1 ≤ y → y ≤ win.y2 →
      win.x1 ≤ spanRight v0 v1 v2 y := by
  have hrows := toInt_inj_of_ne hne
  have hdown : v0.y.toInt < v2.y.toInt := by
    have hupper := h.upper
    have hlower := h.lower
    omega
  simp only [shows_triangleRows h hne, spanned_sorted h.upper h.lower hdown]
  constructor
  · intro hpixels y htop hbottom hrow hrow'
    by_contra hout
    have hfirst := (spanRow_changes win color h ⟨htop, hbottom⟩).2.2 (by omega) hrow hrow'
    have hspan := (hpixels win.x1 y).mp ⟨y, ⟨htop, hbottom⟩, hfirst⟩
    omega
  · intro hreach px py
    constructor
    · rintro ⟨y, hy, hchanges⟩
      obtain ⟨hrow, hright, -⟩ := spanRow_changes win color h hy
      obtain rfl := hrow px py hchanges
      have hcall := (drawFastHLine_changes win _ _ _ color px py).mp hchanges
      have hy' : (arg16 py).toInt = py := by
        have htop := h.top
        have hbottom := h.bottom
        exact arg16_toInt (by omega) (by omega)
      rw [hy'] at hcall
      have hin := (hright (hreach py hy.1 hy.2 hcall.1.1 hcall.1.2.1) px py).mp hchanges
      exact ⟨⟨hy, hin.1.2⟩, hin.2⟩
    · rintro ⟨⟨hy, hspan⟩, hin⟩
      refine ⟨py, hy, ?_⟩
      exact ((spanRow_changes win color h hy).2.1
        (hreach py hy.1 hy.2 hin.2.2.1 hin.2.2.2) px py).mpr ⟨⟨rfl, hspan⟩, hin⟩

end Pixels

/-! ## Vertices in different rows -/

section Sorted

variable {s : Screen} {win : DispWin s} {color : BitVec 16} {v0 v1 v2 : Vertex}
  {vs vs' : List Vertex}

theorem TriangleFits.perm (hf : TriangleFits win vs) (h : vs.Perm vs') :
    TriangleFits win vs' := by
  obtain ⟨hwidth, hreaches, hrows, hedges, hflat⟩ := hf
  rw [crosses_perm h] at hwidth hreaches
  simp only [h.mem_iff] at hrows hedges hflat
  exact ⟨hwidth, hreaches, hrows, hedges, hflat⟩

/-- For sorted vertices that are not on one line. -/
theorem triangleFits_iff (hupper : v0.y.toNat ≤ v1.y.toNat) (hlower : v1.y.toNat ≤ v2.y.toNat)
    (hne : v0.y ≠ v2.y) :
    TriangleFits win [v0, v1, v2] ↔ RowsFit v0 v1 v2 ∧
      ∀ y, v0.y.toInt ≤ y → y ≤ v2.y.toInt → win.y1 ≤ y → y ≤ win.y2 →
        win.x1 ≤ spanRight v0 v1 v2 y := by
  have hrows := toInt_inj_of_ne hne
  have h0 : v0 ∈ [v0, v1, v2] := by simp
  have h1 : v1 ∈ [v0, v1, v2] := by simp
  have h2 : v2 ∈ [v0, v1, v2] := by simp
  constructor
  · intro hfits
    have hy0 := hfits.rows v0 h0 v2 h2 hne
    have hy2 := hfits.rows v2 h2 v0 h0 (Ne.symm hne)
    have hy1 : 0 ≤ v1.y.toInt ∧ v1.y.toInt < 32767 := by
      by_cases hsame : v1.y = v0.y
      · rwa [hsame]
      · exact hfits.rows v1 h1 v0 h0 hsame
    have hn0 := toInt_eq_toNat hy0.1
    have hn1 := toInt_eq_toNat hy1.1
    have hn2 := toInt_eq_toNat hy2.1
    have hup : v0.y.toInt ≤ v1.y.toInt := by omega
    have hlow : v1.y.toInt ≤ v2.y.toInt := by omega
    have hcross : ∀ y x, _ := fun y x => crosses_sorted (y := y) (x := x) hup hlow
      (show v0.y.toInt < v2.y.toInt by omega)
    refine ⟨⟨hy0.1, hup, hlow, hy2.2, hfits.edges v0 h0 v1 h1 hup,
      hfits.edges v0 h0 v2 h2 (by omega), hfits.edges v1 h1 v2 h2 hlow, ?_⟩, ?_⟩
    · intro y htop hbottom
      apply hfits.width y
      · exact (hcross y _).mpr ⟨⟨htop, hbottom⟩, by unfold spanLeft; omega⟩
      · exact (hcross y _).mpr ⟨⟨htop, hbottom⟩, by unfold spanRight; omega⟩
    · intro y htop hbottom hrow hrow'
      obtain ⟨x, hx, hreach⟩ := hfits.reaches y _ hrow hrow'
        ((hcross y _).mpr ⟨⟨htop, hbottom⟩, .inr rfl⟩)
      have hends := ((hcross y x).mp hx).2
      unfold spanRight
      omega
  · rintro ⟨hfits, hreach⟩
    obtain ⟨htop, hup, hlow, hbottom, hdx01, hdx02, hdx12, hwidths⟩ := hfits
    have hcross : ∀ y x, _ := fun y x => crosses_sorted (y := y) (x := x) hup hlow
      (show v0.y.toInt < v2.y.toInt by omega)
    have hwidth : ∀ y x x', Crosses [v0, v1, v2] y x → Crosses [v0, v1, v2] y x' →
        Int16 (x' - x + 1) := by
      intro y x x' hx hx'
      obtain ⟨hy, hends⟩ := (hcross y x).mp hx
      obtain ⟨-, hends'⟩ := (hcross y x').mp hx'
      have hspan := hwidths y hy.1 hy.2
      unfold spanRight spanLeft at hspan
      unfold Int16 at *
      omega
    refine ⟨hwidth, ?_, ?_, ?_, ?_⟩
    · intro y x hrow hrow' hx
      obtain ⟨hy, -⟩ := (hcross y x).mp hx
      refine ⟨spanRight v0 v1 v2 y, (hcross y _).mpr ⟨hy, by unfold spanRight; omega⟩,
        hreach y hy.1 hy.2 hrow hrow'⟩
    · intro v hv w _ _
      rcases mem_three.mp hv with rfl | rfl | rfl
      · omega
      · omega
      · omega
    · intro v hv w hw hvw
      rcases Int.lt_or_eq_of_le hvw with hdown | hlevel
      · rcases mem_three.mp hv with rfl | rfl | rfl
        · rcases mem_three.mp hw with rfl | rfl | rfl
          · omega
          · exact hdx01
          · exact hdx02
        · rcases mem_three.mp hw with rfl | rfl | rfl
          · omega
          · omega
          · exact hdx12
        · rcases mem_three.mp hw with rfl | rfl | rfl
          · omega
          · omega
          · omega
      · have hcv := crosses_vertex hv
        have hcw := crosses_vertex hw
        rw [← hlevel] at hcw
        have hright := hwidth _ _ _ hcv hcw
        have hleft := hwidth _ _ _ hcw hcv
        unfold Int16 at *
        omega
    · intro v _ hsame
      exact absurd ((hsame v0 h0).trans (hsame v2 h2).symm) hne

/-- The sort, by any key. -/
def sortBy {κ : Type} [LinearOrder κ] (f : Vertex → κ) (v0 v1 v2 : Vertex) :
    Vertex × Vertex × Vertex :=
  let (v0, v1) := if f v0 > f v1 then (v1, v0) else (v0, v1)
  let (v1, v2) := if f v1 > f v2 then (v2, v1) else (v1, v2)
  let (v0, v1) := if f v0 > f v1 then (v1, v0) else (v0, v1)
  (v0, v1, v2)

theorem sortVertices_eq (v0 v1 v2 : Vertex) :
    sortVertices v0 v1 v2 = sortBy (fun v => v.y.toNat) v0 v1 v2 := rfl

/-- One exchange of the sort. -/
theorem exchange_spec {κ : Type} [LinearOrder κ] (f : Vertex → κ) (v w : Vertex) :
    ∃ a b, (if f v > f w then (w, v) else (v, w)) = (a, b) ∧ [a, b].Perm [v, w] ∧
      f a = min (f v) (f w) ∧ f b = max (f v) (f w) := by
  split
  next hgt =>
    exact ⟨w, v, rfl, List.Perm.swap v w [], (min_eq_right hgt.le).symm,
      (max_eq_left hgt.le).symm⟩
  next hle =>
    have hle' := not_lt.mp hle
    exact ⟨v, w, rfl, List.Perm.refl _, (min_eq_left hle').symm, (max_eq_right hle').symm⟩

theorem sortBy_spec {κ : Type} [LinearOrder κ] (f : Vertex → κ) (v0 v1 v2 : Vertex) :
    ∃ a b c, sortBy f v0 v1 v2 = (a, b, c) ∧ [a, b, c].Perm [v0, v1, v2] ∧
      f a ≤ f b ∧ f b ≤ f c := by
  obtain ⟨a, b, hab, hperm, ha, hb⟩ := exchange_spec f v0 v1
  obtain ⟨b', c, hbc, hperm', hb', hc⟩ := exchange_spec f b v2
  obtain ⟨a', b'', hab', hperm'', ha', hb''⟩ := exchange_spec f a b'
  refine ⟨a', b'', c, ?_, ?_, ?_, ?_⟩
  · rw [sortBy, hab]
    dsimp only
    rw [hbc]
    dsimp only
    rw [hab']
  · have hlast : [a', b'', c].Perm [a, b', c] := hperm''.append_right [c]
    have hmiddle : [a, b', c].Perm [a, b, v2] := hperm'.cons a
    have hfirst : [a, b, v2].Perm [v0, v1, v2] := hperm.append_right [v2]
    exact (hlast.trans hmiddle).trans hfirst
  · rw [ha', hb'']
    exact min_le_max
  · have hle : f a ≤ f b := by
      rw [ha, hb]
      exact min_le_max
    rw [hb'', hc]
    apply max_le
    · exact le_max_of_le_left hle
    · rw [hb']
      exact min_le_max

theorem spanned_perm (h : vs.Perm vs') : Spanned vs = Spanned vs' := by
  funext px py
  unfold Spanned
  rw [crosses_perm h]

/-- Vertices on one line stay as they are. -/
theorem sortVertices_flat (h1 : v1.y = v0.y) (h2 : v2.y = v0.y) :
    sortVertices v0 v1 v2 = (v0, v1, v2) := by
  have hle : ¬ v0.y.toNat > v0.y.toNat := Nat.lt_irrefl _
  rw [sortVertices, h1, if_neg hle]
  dsimp only
  rw [h1, h2, if_neg hle]
  dsimp only
  rw [h1, if_neg hle]

/-- Vertices that are not on one line: each order is right just where the triangle fits. -/
theorem fillsTo_rows_iff (hne : ¬ (v1.y = v0.y ∧ v2.y = v0.y)) :
    (∃ drawn, FillsTo win v0 v1 v2 color drawn ∧
      ∀ px py, Shows drawn px py ↔ Spanned [v0, v1, v2] px py ∧ win.Inside px py) ↔
    TriangleFits win [v0, v1, v2] := by
  obtain ⟨a, b, c, hsort, hperm, hab, hbc⟩ := sortBy_spec (fun v => v.y.toNat) v0 v1 v2
  have hne' : a.y ≠ c.y := by
    intro heq
    have hall : ∀ v ∈ [a, b, c], v.y = a.y := by
      intro v hv
      have hnat : c.y.toNat = a.y.toNat := by rw [heq]
      rcases mem_three.mp hv with rfl | rfl | rfl
      · rfl
      · exact BitVec.eq_of_toNat_eq (by omega)
      · exact heq.symm
    simp only [hperm.mem_iff] at hall
    have hy0 := hall v0 (by simp)
    exact hne ⟨(hall v1 (by simp)).trans hy0.symm, (hall v2 (by simp)).trans hy0.symm⟩
  have hrun : ∀ assign fuel, fillTriangle assign win fuel v0 v1 v2 color =
      fillRows assign win fuel a b c color := by
    intro assign fuel
    rw [fillTriangle, sortVertices_eq, hsort]
    exact if_neg hne'
  rw [← spanned_perm hperm]
  constructor
  · rintro ⟨drawn, ⟨n, hn⟩, hpixels⟩
    have hfirst := (hn (n + 1) (Nat.lt_succ_self n)).1
    rw [hrun] at hfirst
    have hfits := fits_of_fillRows hab hbc hne' hfirst
    obtain ⟨n', hn'⟩ := fillRows_of_fits win color hfits hne'
    have hsame := (hn (n + n' + 1) (by omega)).1
    rw [hrun, hn' _ (by omega)] at hsame
    obtain rfl := Except.ok.inj hsame
    have hall := (triangleRows_iff hfits hne').mp hpixels
    exact ((triangleFits_iff hab hbc hne').mpr ⟨hfits, hall⟩).perm hperm
  · intro htriangle
    obtain ⟨hfits, hreach⟩ := (triangleFits_iff hab hbc hne').mp (htriangle.perm hperm.symm)
    obtain ⟨n, hn⟩ := fillRows_of_fits win color hfits hne'
    refine ⟨triangleRows win a b c color, ⟨n, fun fuel hfuel => ?_⟩,
      (triangleRows_iff hfits hne').mpr hreach⟩
    have hexact : fillTriangle exact win fuel v0 v1 v2 color =
        .ok (triangleRows win a b c color) := by
      rw [hrun]
      exact hn fuel hfuel
    exact ⟨hexact, fillTriangle_wrapped hexact⟩

end Sorted

end LuaRtos.Tft
