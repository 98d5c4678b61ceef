import Windozz.Kernel.Virtual

set_option autoImplicit false

/-! # Bytes over several pages

A range of pages is consecutive for the program and scattered in memory. When its frames are
distinct and hold no tables (`Span`), the range can be read and written byte by byte as if it were
one piece of memory: `storeBytes_span` and `loadBytes_span` say so of the accesses, and
`memcpy_span` of a copy from one range to another.
-/

namespace Windozz.Kernel

/-! ## Bytes of a range -/

theorem byteAddr_page {ptr : Nat} (h : ptr % 4096 = 0) (j : Nat) :
    byteAddr ptr j = pageAt ptr (j / 4096) + j % 4096 := by
  unfold byteAddr pageAt u64
  omega

theorem byteAddr_add (base o j : Nat) : byteAddr (byteAddr base o) j = byteAddr base (o + j) := by
  unfold byteAddr u64
  omega

/-- The page of a byte of a range. -/
theorem pageOf_byteAddr {ptr : Nat} (h : ptr % 4096 = 0) (j : Nat) :
    pageOf (byteAddr ptr j) = pageOf (pageAt ptr (j / 4096)) := by
  have halign := pageAt_mod h (j / 4096)
  rw [byteAddr_page h, pageOf, pageOf]
  omega

/-- A page is in the window as a whole or not at all. -/
theorem inWindow_byteAddr {ptr : Nat} (h : ptr % 4096 = 0) (j : Nat) :
    InWindow (byteAddr ptr j) ↔ InWindow (pageAt ptr (j / 4096)) := by
  have halign := pageAt_mod h (j / 4096)
  rw [byteAddr_page h]
  unfold InWindow PHYSICAL_MEMORY MMIO_REGION
  omega

/-- The bytes of canonical pages have canonical addresses. -/
theorem canonical_byteAddr {ptr n : Nat} (h : ptr % 4096 = 0)
    (hcanonical : ∀ i, i < n → Canonical (pageAt ptr i)) {j : Nat} (hj : j < n * 4096) :
    Canonical (byteAddr ptr j) := by
  have hpage := hcanonical (j / 4096) (by omega)
  have halign := pageAt_mod h (j / 4096)
  rw [byteAddr_page h]
  unfold Canonical at hpage ⊢
  omega

theorem div_frame (k : Nat) {x : Nat} (h : x < 4096) : (k * 4096 + x) / 4096 = k := by omega

/-- The bytes of a range lie in the frames of its pages. -/
theorem RangeMapped.physical {s : State} {base n : Nat} (h : RangeMapped s base n) {j : Nat}
    (hj : j / 4096 < n) : vmmGetPhysical (byteAddr base j) s
      = some (frameOf s (pageAt base (j / 4096)) * 4096 + j % 4096) := by
  have hpage := pageOf_byteAddr h.aligned j
  have hget : vmmGetPage (byteAddr base j) s = vmmGetPage (pageAt base (j / 4096)) s :=
    vmmGetPage_congr hpage s
  have hoffset : byteAddr base j % 4096 = j % 4096 := by
    have halign := pageAt_mod h.aligned (j / 4096)
    rw [byteAddr_page h.aligned]
    omega
  rw [vmmGetPhysical_some, frameOf, hget, hoffset, frameOf]
  · exact fun hw => h.outside _ hj ((inWindow_byteAddr h.aligned j).mp hw)
  · rw [hget]
    exact h.present _ hj

theorem RangeMapped.noLarge_byte {s : State} {base n : Nat} (h : RangeMapped s base n) {j : Nat}
    (hj : j / 4096 < n) : s.NoLargePage (byteAddr base j) :=
  (noLargePage_congr (pageOf_byteAddr h.aligned j)).mpr (h.noLarge _ hj)

/-- The first bytes of a range are consecutive. -/
theorem RangeMapped.linear {s : State} {base n : Nat} (h : RangeMapped s base n) (hn : 0 < n)
    (hframe : frameOf s (pageAt base 0) ∉ s.tableFrames) {o k : Nat} (hk : o + k ≤ 4096) :
    Linear s (byteAddr base o) k (frameOf s (pageAt base 0) * 4096 + o) := by
  have hadd := byteAddr_add base o
  refine ⟨u64_lt _, fun j hj => ?_, fun j hj => ?_, fun j hj => ?_⟩
  · rw [hadd]
    exact h.noLarge_byte (by omega)
  · have hz : (o + j) / 4096 = 0 := by omega
    have hm : (o + j) % 4096 = o + j := by omega
    rw [hadd, h.physical (by omega), hz, hm, Nat.add_assoc]
  · rw [Nat.add_assoc, div_frame _ (by omega)]
    exact hframe

/-- Bytes in the pages of a range lie in its frames. -/
theorem RangeMapped.bytesIn {s : State} {p count : Nat} (h : RangeMapped s p count) {F : Set Nat}
    (hframe : ∀ i, i < count → frameOf s (pageAt p i) ∈ F) {o n : Nat} (hle : o + n ≤ count * 4096) :
    BytesIn s (byteAddr p o) n F := by
  have hadd := byteAddr_add p o
  refine ⟨u64_lt _, fun j hj => ?_, fun j pa hj hpa => ?_⟩
  · rw [hadd]
    exact h.noLarge_byte (by omega)
  · rw [hadd, h.physical (by omega)] at hpa
    obtain rfl := Option.some.inj hpa
    rw [div_frame _ (Nat.mod_lt _ (by decide))]
    exact hframe _ (by omega)

/-- The byte at a virtual address. -/
def byteAt (va : Nat) (s : State) : Option UInt8 := (vmmGetPhysical va s).map s.mem

/-! ## Spans -/

theorem Stores.range {s s' : State} {F : Set Nat} {p count : Nat} (h : Stores s s' F)
    (hF : ∀ k ∈ F, k ∉ s.tableFrames) (hrange : RangeMapped s p count) :
    RangeMapped s' p count := by
  refine ⟨hrange.aligned, hrange.length_lt, hrange.outside,
    fun i hi => h.noLargePage hF (hrange.noLarge i hi), fun i hi => ?_⟩
  rw [h.getPage_eq hF]
  exact hrange.present i hi

theorem Stores.frame_eq {s s' : State} {F : Set Nat} (h : Stores s s' F)
    (hF : ∀ k ∈ F, k ∉ s.tableFrames) (va : Nat) : frameOf s' va = frameOf s va := by
  rw [frameOf, h.getPage_eq hF, frameOf]

/-- The physical address of a byte of a range. -/
def physAt (s : State) (base j : Nat) : Nat :=
  frameOf s (pageAt base (j / 4096)) * 4096 + j % 4096

/-- The frames of a range. -/
def spanFrames (s : State) (base count : Nat) : Set Nat :=
  {k | ∃ i, i < count ∧ k = frameOf s (pageAt base i)}

/-- The pages are mapped to distinct frames that hold no tables. -/
structure Span (s : State) (base count : Nat) : Prop where
  range : RangeMapped s base count
  not_table : ∀ k ∈ spanFrames s base count, k ∉ s.tableFrames
  distinct : ∀ i j, i < count → j < count →
    frameOf s (pageAt base i) = frameOf s (pageAt base j) → i = j

theorem physAt_frame (s : State) (base j : Nat) :
    physAt s base j / 4096 = frameOf s (pageAt base (j / 4096)) :=
  div_frame _ (Nat.mod_lt _ (by decide))

theorem physAt_mem {s : State} {base count j : Nat} (hj : j < count * 4096) :
    physAt s base j / 4096 ∈ spanFrames s base count :=
  ⟨j / 4096, by omega, physAt_frame s base j⟩

namespace Span

variable {s s' : State} {base count : Nat} (h : Span s base count)

include h

theorem byteAt {j : Nat} (hj : j < count * 4096) :
    byteAt (byteAddr base j) s = some (s.mem (physAt s base j)) := by
  rw [Kernel.byteAt, h.range.physical (by omega)]
  rfl

theorem physAt_inj {i j : Nat} (hi : i < count * 4096) (hj : j < count * 4096)
    (heq : physAt s base i = physAt s base j) : i = j := by
  have hframe := congrArg (· / 4096) heq
  simp only [physAt_frame] at hframe
  have hpage := h.distinct _ _ (by omega) (by omega) hframe
  unfold physAt at heq
  rw [hpage] at heq
  omega

end Span

section Frames

variable {s s' : State} {base count : Nat} {F : Set Nat} (hs : Stores s s' F)
  (hF : ∀ k ∈ F, k ∉ s.tableFrames)

include hs hF

theorem Stores.physAt_eq (base j : Nat) : physAt s' base j = physAt s base j := by
  rw [physAt, hs.frame_eq hF, physAt]

theorem Stores.spanFrames_eq (base count : Nat) :
    spanFrames s' base count = spanFrames s base count := by
  ext k
  simp only [spanFrames, Set.mem_ofPred_eq, hs.frame_eq hF]

/-- Stores to frames without tables keep a span. -/
theorem Stores.span (h : Span s base count) : Span s' base count := by
  refine ⟨hs.range hF h.range, fun k hk => ?_, fun i j hi hj heq => ?_⟩
  · rw [hs.spanFrames_eq hF] at hk
    rw [hs.frames_eq hF]
    exact h.not_table k hk
  · rw [hs.frame_eq hF, hs.frame_eq hF] at heq
    exact h.distinct i j hi hj heq

end Frames

/-! ## Accesses -/

/-- One byte of a span is stored where it belongs. -/
theorem Span.storeByte {s s' : State} {base count j : Nat} {b : UInt8} {u : Unit}
    (h : Span s base count) (hj : j < count * 4096)
    (hrun : storeByte (byteAddr base j) b s = .ok (u, s')) :
    s' = { s with mem := Function.update s.mem (physAt s base j) b } := by
  obtain ⟨pa, htranslate, hs'⟩ := storeByte_ok hrun
  rw [translate_eq (h.range.noLarge_byte (by omega)), h.range.physical (by omega)] at htranslate
  split at htranslate
  · obtain rfl := Option.some.inj htranslate
    exact hs'
  · cases htranslate

/-- One byte of a span is loaded. -/
theorem Span.loadByte {s s' : State} {base count j : Nat} {b : UInt8} (h : Span s base count)
    (hj : j < count * 4096) (hrun : loadByte (byteAddr base j) s = .ok (b, s')) :
    s' = s ∧ b = s.mem (physAt s base j) := by
  rw [Kernel.loadByte, Prog.bind_ok (Prog.run_get _),
    translate_eq (h.range.noLarge_byte (by omega)), h.range.physical (by omega)] at hrun
  by_cases hc : Canonical (byteAddr base j)
  · rw [if_pos hc] at hrun
    obtain ⟨rfl, rfl⟩ := Prod.mk.inj (Except.ok.inj hrun)
    exact ⟨rfl, rfl⟩
  · rw [if_neg hc] at hrun
    cases hrun

/-- **Storing bytes** changes the bytes of the span that they go to, and nothing else. -/
theorem storeBytes_span (bs : List UInt8) : ∀ {s s' : State} {base count o : Nat} {u : Unit},
    Span s base count → o + bs.length ≤ count * 4096 →
    storeBytes (byteAddr base o) bs s = .ok (u, s') →
    Stores s s' (spanFrames s base count) ∧ ∀ j, j < count * 4096 →
      s'.mem (physAt s base j)
        = if o ≤ j ∧ j < o + bs.length then bs.getD (j - o) 0 else s.mem (physAt s base j) := by
  induction bs with
  | nil =>
      intro s s' base count o u _ _ hrun
      obtain ⟨-, rfl⟩ := Prod.mk.inj (Except.ok.inj hrun)
      refine ⟨.refl _ _, fun j _ => ?_⟩
      rw [List.length_nil, if_neg (by omega)]
  | cons b bs ih =>
      intro s s' base count o u h hle hrun
      rw [List.length_cons] at hle
      obtain ⟨_, s₁, hbyte, hrest⟩ := Prog.bind_eq_ok.mp hrun
      -- the first byte changes one address; the span is the same for the rest
      have hs₁ := h.storeByte (by omega) hbyte
      have hmem : s₁.mem = Function.update s.mem (physAt s base o) b := by rw [hs₁]
      have hstore : Stores s s₁ (spanFrames s base count) := hs₁ ▸ .byte (physAt_mem (by omega)) b
      have hnext : u64 (byteAddr base o + 1) = byteAddr base (o + 1) := byteAddr_add base o 1
      rw [hnext] at hrest
      obtain ⟨hstores, hbytes⟩ := ih (hstore.span h.not_table h) (by omega) hrest
      rw [hstore.spanFrames_eq h.not_table] at hstores
      refine ⟨hstore.trans hstores, fun j hj => ?_⟩
      have hj' := hbytes j hj
      rw [hstore.physAt_eq h.not_table] at hj'
      rw [hj', List.length_cons]
      have hkept : j ≠ o → s₁.mem (physAt s base j) = s.mem (physAt s base j) := by
        intro hne
        have haddr : physAt s base j ≠ physAt s base o := fun heq =>
          hne (h.physAt_inj hj (by omega) heq)
        rw [hmem, Function.update_of_ne haddr]
      -- in front of the first byte, at it, or among the rest that `ih` describes
      rcases Nat.lt_trichotomy j o with hlt | rfl | hlt
      · rw [if_neg (by omega), if_neg (by omega)]
        exact hkept (by omega)
      · rw [if_neg (by omega), if_pos (by omega), Nat.sub_self, hmem, Function.update_self]
        rfl
      · obtain ⟨d, rfl⟩ := Nat.exists_eq_add_of_lt hlt
        have hd : o + d + 1 - (o + 1) = d := by omega
        have hd' : o + d + 1 - o = d + 1 := by omega
        rw [hd, hd', List.getD_cons_succ]
        by_cases hin : d < bs.length
        · rw [if_pos (by omega), if_pos (by omega)]
        · rw [if_neg (by omega), if_neg (by omega)]
          exact hkept (by omega)

/-- **Loading bytes** reads the bytes of the span. -/
theorem loadBytes_span (n : Nat) : ∀ {s s' : State} {base count o : Nat} {bs : List UInt8},
    Span s base count → o + n ≤ count * 4096 → loadBytes (byteAddr base o) n s = .ok (bs, s') →
    s' = s ∧ bs.length = n ∧ ∀ i, i < n → bs.getD i 0 = s.mem (physAt s base (o + i)) := by
  induction n with
  | zero =>
      intro s s' base count o bs _ _ hrun
      obtain ⟨rfl, rfl⟩ := Prod.mk.inj (Except.ok.inj hrun)
      exact ⟨rfl, rfl, fun i hi => absurd hi (Nat.not_lt_zero _)⟩
  | succ n ih =>
      intro s s' base count o bs h hle hrun
      obtain ⟨b, s₁, hbyte, hrest⟩ := Prog.bind_eq_ok.mp hrun
      obtain ⟨rest, s₂, hloop, hpure⟩ := Prog.bind_eq_ok.mp hrest
      obtain ⟨rfl, rfl⟩ := Prod.mk.inj (Except.ok.inj hpure)
      obtain ⟨rfl, rfl⟩ := h.loadByte (by omega) hbyte
      have hnext : u64 (byteAddr base o + 1) = byteAddr base (o + 1) := byteAddr_add base o 1
      rw [hnext] at hloop
      obtain ⟨rfl, hlen, hbytes⟩ := ih h (by omega) hloop
      refine ⟨rfl, by rw [List.length_cons, hlen], fun i hi => ?_⟩
      cases i with
      | zero => rfl
      | succ i => rw [List.getD_cons_succ, hbytes i (by omega), Nat.add_assoc, Nat.add_comm 1 i]

/-! ## Copies -/

/-- Between two states `n` bytes of the span at `src`, from offset `q` on, were copied to the span at
`dest`, from offset `o` on, and nothing else changed. -/
structure CopiesSpan (s s' : State) (dest count src o q n : Nat) : Prop where
  stores : Stores s s' (spanFrames s dest count)
  bytes : ∀ j, j < count * 4096 → s'.mem (physAt s dest j)
    = if o ≤ j ∧ j < o + n then s.mem (physAt s src (q + (j - o))) else s.mem (physAt s dest j)

section Copies

variable {dest count src total : Nat}

/-- The frames of two spans have nothing in common. -/
def SpansApart (s : State) (dest count src total : Nat) : Prop :=
  ∀ k ∈ spanFrames s dest count, k ∉ spanFrames s src total

theorem CopiesSpan.refl (s : State) (dest count src o q : Nat) :
    CopiesSpan s s dest count src o q 0 :=
  ⟨.refl _ _, fun j _ => by rw [if_neg (by omega)]⟩

theorem CopiesSpan.trans {s s' s'' : State} {o q n k : Nat}
    (h : CopiesSpan s s' dest count src o q n)
    (h' : CopiesSpan s' s'' dest count src (o + n) (q + n) k) (hdest : Span s dest count)
    (hapart : SpansApart s dest count src total) (hq : q + (n + k) ≤ total * 4096) :
    CopiesSpan s s'' dest count src o q (n + k) := by
  have hframes := h.stores.spanFrames_eq hdest.not_table dest count
  refine ⟨h.stores.trans (hframes ▸ h'.stores), fun j hj => ?_⟩
  have hbytes := h'.bytes j hj
  simp only [h.stores.physAt_eq hdest.not_table] at hbytes
  rw [hbytes]
  -- the second copy reads the source as the first has left it, which is unchanged
  by_cases hlast : o + n ≤ j ∧ j < o + n + k
  · have hoff : q + n + (j - (o + n)) = q + (j - o) := by omega
    rw [if_pos hlast, if_pos (by omega), hoff]
    exact h.stores.mem_eq _ fun hin => hapart _ hin (physAt_mem (by omega))
  · rw [if_neg hlast, h.bytes j hj]
    by_cases hin : o ≤ j ∧ j < o + n
    · rw [if_pos hin, if_pos (by omega)]
    · rw [if_neg hin, if_neg (by omega)]

/-- A run of string moves copies. -/
theorem moveUnits_span (width n : Nat) : ∀ {s s' : State} {o q : Nat} {u : Unit},
    Span s dest count → Span s src total → SpansApart s dest count src total →
    o + n * width ≤ count * 4096 → q + n * width ≤ total * 4096 →
    moveUnits width (byteAddr dest o) (byteAddr src q) n s = .ok (u, s') →
    CopiesSpan s s' dest count src o q (n * width) := by
  induction n with
  | zero =>
      intro s s' o q u _ _ _ _ _ hrun
      obtain ⟨-, rfl⟩ := Prod.mk.inj (Except.ok.inj hrun)
      rw [Nat.zero_mul]
      exact .refl _ _ _ _ _ _
  | succ n ih =>
      intro s s' o q u hdest hsrc hapart ho hq hrun
      have hmul : (n + 1) * width = width + n * width := by
        rw [Nat.succ_mul, Nat.add_comm]
      rw [hmul] at ho hq ⊢
      obtain ⟨bs, s₁, hload, hrun₁⟩ := Prog.bind_eq_ok.mp hrun
      obtain ⟨_, s₂, hstore, hrun₂⟩ := Prog.bind_eq_ok.mp hrun₁
      obtain ⟨rfl, hlen, hread⟩ := loadBytes_span width hsrc (by omega) hload
      obtain ⟨hstores, hbytes⟩ := storeBytes_span bs hdest (by omega) hstore
      -- one move, then `ih` for the moves behind it
      have hfirst : CopiesSpan s₁ s₂ dest count src o q width := by
        refine ⟨hstores, fun j hj => ?_⟩
        rw [hbytes j hj, hlen]
        by_cases hin : o ≤ j ∧ j < o + width
        · rw [if_pos hin, if_pos hin, hread _ (by omega)]
        · rw [if_neg hin, if_neg hin]
      have hdest' : u64 (byteAddr dest o + width) = byteAddr dest (o + width) :=
        byteAddr_add dest o width
      have hsrc' : u64 (byteAddr src q + width) = byteAddr src (q + width) :=
        byteAddr_add src q width
      rw [hdest', hsrc'] at hrun₂
      have hapart₂ : SpansApart s₂ dest count src total := by
        intro k hk
        rw [hstores.spanFrames_eq hdest.not_table] at hk ⊢
        exact hapart k hk
      exact hfirst.trans (ih (hstores.span hdest.not_table hdest)
        (hstores.span hdest.not_table hsrc) hapart₂ (by omega) (by omega) hrun₂) hdest hapart
        (by omega)

/-- **`memcpy`** copies from one span to another. -/
theorem memcpy_span {s s' : State} {o q n : Nat} {u : Unit} (hdest : Span s dest count)
    (hsrc : Span s src total) (hapart : SpansApart s dest count src total)
    (ho : o + n ≤ count * 4096) (hq : q + n ≤ total * 4096)
    (hrun : memcpy (byteAddr dest o) (byteAddr src q) n s = .ok (u, s')) :
    CopiesSpan s s' dest count src o q n := by
  obtain ⟨_, s₁, hwords, hrest⟩ := Prog.bind_eq_ok.mp hrun
  -- the words, and then the bytes that are left
  have hfirst := moveUnits_span 8 (n / 8) hdest hsrc hapart (by omega) (by omega) hwords
  have hstores := hfirst.stores
  have hdest' : u64 (byteAddr dest o + n / 8 * 8) = byteAddr dest (o + n / 8 * 8) :=
    byteAddr_add dest o _
  have hsrc' : u64 (byteAddr src q + n / 8 * 8) = byteAddr src (q + n / 8 * 8) :=
    byteAddr_add src q _
  rw [hdest', hsrc'] at hrest
  have hapart₁ : SpansApart s₁ dest count src total := by
    intro k hk
    rw [hstores.spanFrames_eq hdest.not_table] at hk ⊢
    exact hapart k hk
  have hlast := moveUnits_span 1 (n % 8) (hstores.span hdest.not_table hdest)
    (hstores.span hdest.not_table hsrc) hapart₁ (by omega) (by omega) hrest
  have hall := hfirst.trans hlast hdest hapart (by omega)
  rwa [show n / 8 * 8 + n % 8 * 1 = n by omega] at hall

end Copies

end Windozz.Kernel
