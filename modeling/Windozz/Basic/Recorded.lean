import Windozz.Basic.Bytes

set_option autoImplicit false

/-! # Memories that record their stores

A memory together with the list of the addresses stored to. `Within P r r'` says that between two
states every store went to an address with the property `P`; it is reflexive and transitive, and
kept by loops, so a bound on what a program stores is put together from its parts. `StoresAt` is the
opposite: an address that was stored to.
-/

namespace Windozz

/-- A memory and the addresses stored to so far, last first. -/
structure Recorded where
  mem : Mem
  stored : List Nat

/-- `for(i = 0; i < n; i++)`. -/
def forUpTo {α : Type} (body : Nat → α → α) : Nat → α → α
  | 0, a => a
  | n + 1, a => body n (forUpTo body n a)

namespace Recorded

/-- Bytes stored one after the other. Addresses wrap at 64 bits. -/
def store : Nat → List UInt8 → Recorded → Recorded
  | _, [], r => r
  | a, b :: bs, r => store (u64 (a + 1)) bs ⟨Function.update r.mem a b, a :: r.stored⟩

/-- The `n` bytes from address `a` on. -/
def load (r : Recorded) (a n : Nat) : List UInt8 := (List.range n).map fun i => r.mem (u64 (a + i))

/-- A run of string moves of `width` bytes each. -/
def moves (width : Nat) : Nat → Nat → Nat → Recorded → Recorded
  | _, _, 0, r => r
  | dest, src, n + 1, r =>
      moves width (u64 (dest + width)) (u64 (src + width)) n (r.store dest (r.load src width))

/-- `rep movsq` for the quadwords and `rep movsb` for the rest. -/
def memcpy (dest src num : Nat) (r : Recorded) : Recorded :=
  moves 1 (u64 (dest + num / 8 * 8)) (u64 (src + num / 8 * 8)) (num % 8)
    (moves 8 dest src (num / 8) r)

@[simp] theorem load_length (r : Recorded) (a n : Nat) : (r.load a n).length = n := by
  simp [load]

/-! ## Where stores go -/

/-- Every store between the two states went to an address with the property. -/
def Within (P : Nat → Prop) (r r' : Recorded) : Prop :=
  ∃ news, r'.stored = news ++ r.stored ∧ ∀ a ∈ news, P a

/-- Between the two states the address was stored to. -/
def StoresAt (a : Nat) (r r' : Recorded) : Prop := ∃ news, r'.stored = news ++ r.stored ∧ a ∈ news

variable {P Q : Nat → Prop} {r r' r'' : Recorded} {a : Nat}

theorem Within.refl (P : Nat → Prop) (r : Recorded) : Within P r r := ⟨[], rfl, by simp⟩

theorem Within.trans (h : Within P r r') (h' : Within P r' r'') : Within P r r'' := by
  obtain ⟨news, hstored, hP⟩ := h
  obtain ⟨news', hstored', hP'⟩ := h'
  refine ⟨news' ++ news, by rw [hstored', hstored, List.append_assoc], fun x hx => ?_⟩
  exact (List.mem_append.mp hx).elim (hP' x) (hP x)

theorem StoresAt.within (h : StoresAt a r r') (hw : Within P r r') : P a := by
  obtain ⟨news, hstored, ha⟩ := h
  obtain ⟨news', hstored', hP⟩ := hw
  obtain rfl := List.append_cancel_right (hstored.symm.trans hstored')
  exact hP a ha

theorem StoresAt.before (h : StoresAt a r' r'') (hw : Within P r r') : StoresAt a r r'' := by
  obtain ⟨news, hstored, ha⟩ := h
  obtain ⟨news', hstored', -⟩ := hw
  exact ⟨news ++ news', by rw [hstored, hstored', List.append_assoc], List.mem_append_left _ ha⟩

theorem StoresAt.after (h : StoresAt a r r') (hw : Within P r' r'') : StoresAt a r r'' := by
  obtain ⟨news, hstored, ha⟩ := h
  obtain ⟨news', hstored', -⟩ := hw
  exact ⟨news' ++ news, by rw [hstored', hstored, List.append_assoc], List.mem_append_right _ ha⟩

/-! ## Loops -/

/-- What every round does a loop does. -/
theorem Within.loop {body : Nat → Recorded → Recorded} (n : Nat)
    (h : ∀ i, i < n → ∀ r, Within P r (body i r)) (r : Recorded) :
    Within P r (forUpTo body n r) := by
  induction n with
  | zero => exact Within.refl P r
  | succ n ih =>
      have hprefix := ih fun i hi => h i (by omega)
      exact hprefix.trans (h n (by omega) _)

/-- What one round stores a loop stores. -/
theorem StoresAt.loop {body : Nat → Recorded → Recorded} {n k : Nat} (hk : k < n)
    (hall : ∀ i r, Within (fun _ => True) r (body i r)) (h : ∀ r, StoresAt a r (body k r))
    (r : Recorded) : StoresAt a r (forUpTo body n r) := by
  induction n with
  | zero => omega
  | succ n ih =>
      by_cases hlast : k = n
      · subst hlast
        exact (h _).before (Within.loop k (fun i _ => hall i) r)
      · exact (ih (by omega)).after (hall n _)

/-! ## Stores and moves -/

/-- Bytes are stored at consecutive addresses. -/
theorem store_within (bs : List UInt8) : ∀ {a : Nat} (r : Recorded),
    (∀ i, i < bs.length → P (u64 (a + i))) → a < 2 ^ 64 → Within P r (r.store a bs) := by
  induction bs with
  | nil => exact fun r _ _ => Within.refl P r
  | cons b bs ih =>
      intro a r h ha
      have hfirst : P a := by
        have h0 := h 0 (by simp)
        rwa [Nat.add_zero, u64_of_lt ha] at h0
      have hrest := ih ⟨Function.update r.mem a b, a :: r.stored⟩ (a := u64 (a + 1))
        (fun i hi => by
          have hi' := h (i + 1) (by simpa using hi)
          have haddr : u64 (u64 (a + 1) + i) = u64 (a + (i + 1)) := by
            unfold u64
            omega
          rwa [haddr])
        (u64_lt _)
      refine Within.trans ⟨[a], rfl, ?_⟩ hrest
      intro x hx
      rwa [List.mem_singleton.mp hx]

theorem store_storesAt (b : UInt8) (bs : List UInt8) (a : Nat) (r : Recorded) :
    StoresAt a r (r.store a (b :: bs)) := by
  have hfirst : StoresAt a r ⟨Function.update r.mem a b, a :: r.stored⟩ := ⟨[a], rfl, by simp⟩
  exact hfirst.after (store_within (P := fun _ => True) bs _ (fun _ _ => trivial) (u64_lt _))

theorem moves_within (width : Nat) : ∀ (n : Nat) {dest : Nat} (src : Nat) (r : Recorded),
    dest < 2 ^ 64 → (∀ i, i < n * width → P (u64 (dest + i))) →
    Within P r (moves width dest src n r) := by
  intro n
  induction n with
  | zero => exact fun _ r _ _ => Within.refl P r
  | succ n ih =>
      intro dest src r hdest h
      rw [Nat.succ_mul] at h
      have hfirst := store_within (P := P) (r.load src width) (a := dest) r
        (fun i hi => h i (by rw [load_length] at hi; omega)) hdest
      refine hfirst.trans (ih _ _ (u64_lt _) fun i hi => ?_)
      have haddr : u64 (u64 (dest + width) + i) = u64 (dest + (width + i)) := by
        unfold u64
        omega
      rw [haddr]
      exact h _ (by omega)

/-- `memcpy` stores to its destination. -/
theorem memcpy_within {dest src num : Nat} (r : Recorded) (hdest : dest < 2 ^ 64)
    (h : ∀ i, i < num → P (u64 (dest + i))) : Within P r (memcpy dest src num r) := by
  refine (moves_within 8 (num / 8) src r hdest fun i hi => h i (by omega)).trans
    (moves_within 1 (num % 8) _ _ (u64_lt _) fun i hi => ?_)
  have haddr : u64 (u64 (dest + num / 8 * 8) + i) = u64 (dest + (num / 8 * 8 + i)) := by
    unfold u64
    omega
  rw [haddr]
  exact h _ (by omega)

/-! ## What stores and moves leave -/

/-- Bytes stored at an address, and all others. -/
theorem store_mem (bs : List UInt8) : ∀ {a : Nat} (r : Recorded), a + bs.length ≤ 2 ^ 64 →
    (∀ k, k < bs.length → (r.store a bs).mem (a + k) = bs.getD k 0) ∧
      ∀ x, x < a ∨ a + bs.length ≤ x → (r.store a bs).mem x = r.mem x := by
  induction bs with
  | nil => exact fun r _ => ⟨fun k hk => absurd hk (Nat.not_lt_zero k), fun _ _ => rfl⟩
  | cons b bs ih =>
      intro a r hend
      rw [List.length_cons] at hend
      -- the address behind the last byte may wrap around, but nothing is stored there
      cases bs with
      | nil =>
          refine ⟨fun k hk => ?_, fun x hx => ?_⟩
          · rw [List.length_singleton, Nat.lt_one_iff] at hk
            rw [hk]
            exact Function.update_self a b r.mem
          · rw [List.length_singleton] at hx
            exact Function.update_of_ne (show x ≠ a by omega) b r.mem
      | cons b' bs =>
          rw [List.length_cons] at hend
          have hnext : u64 (a + 1) = a + 1 := u64_of_lt (by omega)
          obtain ⟨hin, hout⟩ := ih (a := a + 1) ⟨Function.update r.mem a b, a :: r.stored⟩
            (by rw [List.length_cons]; omega)
          rw [store, hnext]
          refine ⟨fun k hk => ?_, fun x hx => ?_⟩
          · cases k with
            | zero => exact (hout a (Or.inl (by omega))).trans (Function.update_self a b r.mem)
            | succ k =>
                have hrest := hin k (by simpa using hk)
                rwa [Nat.add_assoc, Nat.add_comm 1] at hrest
          · rw [List.length_cons, List.length_cons] at hx
            rw [hout x (by rw [List.length_cons]; omega)]
            exact Function.update_of_ne (show x ≠ a by omega) b r.mem

/-- A run of moves copies forwards: the source lies behind what is stored next, or in front of the
destination. -/
theorem moves_mem {width : Nat} (hwidth : 0 < width) : ∀ (n dest src : Nat) (r : Recorded),
    dest + n * width ≤ 2 ^ 64 → src + n * width ≤ 2 ^ 64 →
    dest + width ≤ src ∨ src + n * width ≤ dest →
    (∀ i, i < n * width → (moves width dest src n r).mem (dest + i) = r.mem (src + i)) ∧
      ∀ x, x < dest ∨ dest + n * width ≤ x → (moves width dest src n r).mem x = r.mem x := by
  intro n
  induction n with
  | zero => exact fun _ _ r _ _ _ => ⟨fun i hi => by omega, fun _ _ => rfl⟩
  | succ n ih =>
      intro dest src r hdest hsrc hapart
      rw [Nat.succ_mul] at hdest hsrc hapart ⊢
      -- the first move
      have hload : ∀ k, k < width → (r.load src width).getD k 0 = r.mem (src + k) := by
        intro k hk
        rw [load, List.getD_eq_getElem?_getD, List.getElem?_map, List.getElem?_range hk]
        simp only [Option.map_some, Option.getD_some]
        rw [u64_of_lt (by omega)]
      obtain ⟨hin, hout⟩ := store_mem (r.load src width) (a := dest) r (by rw [load_length]; omega)
      rw [load_length] at hin hout
      rw [moves]
      cases n with
      | zero =>
          refine ⟨fun i hi => ?_, fun x hx => hout x (by omega)⟩
          rw [Nat.zero_mul, Nat.zero_add] at hi
          exact (hin i hi).trans (hload i hi)
      | succ n =>
          rw [Nat.succ_mul] at hdest hsrc hapart ih ⊢
          have hnext : u64 (dest + width) = dest + width ∧ u64 (src + width) = src + width :=
            ⟨u64_of_lt (by omega), u64_of_lt (by omega)⟩
          rw [hnext.1, hnext.2]
          obtain ⟨hrest, hothers⟩ := ih (dest + width) (src + width)
            (r.store dest (r.load src width)) (by omega) (by omega) (by omega)
          refine ⟨fun i hi => ?_, fun x hx => ?_⟩
          · by_cases hfirst : i < width
            · rw [hothers _ (Or.inl (by omega)), hin i hfirst, hload i hfirst]
            · have hmoved := hrest (i - width) (by omega)
              have haddr : dest + width + (i - width) = dest + i ∧
                  src + width + (i - width) = src + i := by omega
              rw [haddr.1, haddr.2] at hmoved
              rw [hmoved, hout _ (by omega)]
          · rw [hothers x (by omega), hout x (by omega)]

/-- `memcpy` copies forwards, eight bytes at a time. -/
theorem memcpy_mem (dest src num : Nat) (r : Recorded) (hdest : dest + num ≤ 2 ^ 64)
    (hsrc : src + num ≤ 2 ^ 64) (hapart : dest + 8 ≤ src ∨ src + num ≤ dest) :
    (∀ i, i < num → (memcpy dest src num r).mem (dest + i) = r.mem (src + i)) ∧
      ∀ x, x < dest ∨ dest + num ≤ x → (memcpy dest src num r).mem x = r.mem x := by
  obtain ⟨hwords, hrest⟩ := moves_mem (show 0 < 8 by decide) (num / 8) dest src r
    (by omega) (by omega) (by omega)
  by_cases htail : num % 8 = 0
  · have hall : num / 8 * 8 = num := by omega
    rw [memcpy, htail]
    rw [hall] at hwords hrest
    exact ⟨hwords, hrest⟩
  · have hnext : u64 (dest + num / 8 * 8) = dest + num / 8 * 8 ∧
        u64 (src + num / 8 * 8) = src + num / 8 * 8 :=
      ⟨u64_of_lt (by omega), u64_of_lt (by omega)⟩
    obtain ⟨hbytes, hothers⟩ := moves_mem (show 0 < 1 by decide) (num % 8)
      (dest + num / 8 * 8) (src + num / 8 * 8) (moves 8 dest src (num / 8) r) (by omega) (by omega) (by omega)
    rw [memcpy, hnext.1, hnext.2]
    refine ⟨fun i hi => ?_, fun x hx => ?_⟩
    · by_cases hword : i < num / 8 * 8
      · rw [hothers _ (Or.inl (by omega)), hwords i hword]
      · have hmoved := hbytes (i - num / 8 * 8) (by omega)
        have haddr : dest + num / 8 * 8 + (i - num / 8 * 8) = dest + i ∧
            src + num / 8 * 8 + (i - num / 8 * 8) = src + i := by omega
        rw [haddr.1, haddr.2] at hmoved
        rw [hmoved, hrest _ (by omega)]
    · rw [hothers x (by omega), hrest x (by omega)]

/-- Bytes that are read one by one. -/
theorem load_eq {r : Recorded} {a : Nat} (bs : List UInt8) (hend : a + bs.length ≤ 2 ^ 64)
    (h : ∀ k, k < bs.length → r.mem (a + k) = bs.getD k 0) : r.load a bs.length = bs := by
  refine List.ext_getElem (load_length _ _ _) fun k hk hk' => ?_
  rw [load_length] at hk
  have hbyte := h k hk
  rw [List.getD_eq_getElem?_getD, List.getElem?_eq_getElem hk, Option.getD_some] at hbyte
  rw [← hbyte]
  simp only [load, List.getElem_map, List.getElem_range]
  rw [u64_of_lt (by omega)]

/-- The same bytes stored over and over. -/
theorem fill_mem (bs : List UInt8) {a : Nat} (n : Nat) (r : Recorded)
    (hend : a + bs.length * n ≤ 2 ^ 64) :
    (∀ i, i < n → ∀ k, k < bs.length →
      (forUpTo (fun i m => m.store (u64 (a + bs.length * i)) bs) n r).mem
        (a + (bs.length * i + k)) = bs.getD k 0) ∧
      ∀ x, x < a ∨ a + bs.length * n ≤ x →
        (forUpTo (fun i m => m.store (u64 (a + bs.length * i)) bs) n r).mem x = r.mem x := by
  induction n with
  | zero => exact ⟨fun i hi => absurd hi (Nat.not_lt_zero i), fun _ _ => rfl⟩
  | succ n ih =>
      rw [Nat.mul_succ] at hend ⊢
      obtain ⟨hin, hout⟩ := ih (by omega)
      -- without bytes the address may wrap, and it does not matter
      by_cases hnone : bs.length = 0
      · rw [List.length_eq_zero_iff] at hnone
        subst hnone
        exact ⟨fun i hi k hk => absurd hk (Nat.not_lt_zero k), fun x hx => hout x (by simpa using hx)⟩
      have haddr : u64 (a + bs.length * n) = a + bs.length * n := u64_of_lt (by omega)
      obtain ⟨hlast, hothers⟩ := store_mem bs (a := a + bs.length * n)
        (forUpTo (fun i m => m.store (u64 (a + bs.length * i)) bs) n r) (by omega)
      rw [forUpTo, haddr]
      refine ⟨fun i hi k hk => ?_, fun x hx => ?_⟩
      · by_cases heq : i = n
        · rw [heq, ← Nat.add_assoc]
          exact hlast k hk
        · have hless : bs.length * (i + 1) ≤ bs.length * n := Nat.mul_le_mul_left _ (by omega)
          rw [Nat.mul_succ] at hless
          rw [hothers _ (Or.inl (by omega))]
          exact hin i (by omega) k hk
      · rw [hothers x (by omega)]
        exact hout x (by omega)

/-- A loop of which every round stores one of the pieces of `w` bytes that lie `stride` apart. -/
theorem loop_mem {body : Nat → Recorded → Recorded} {a stride w n : Nat} {P : Nat → Nat → UInt8}
    (hw : w ≤ stride)
    (hbody : ∀ j, j < n → ∀ r, (∀ k, k < w → (body j r).mem (a + (j * stride + k)) = P j k) ∧
      ∀ x, x < a + j * stride ∨ a + j * stride + w ≤ x → (body j r).mem x = r.mem x)
    (r : Recorded) :
    (∀ j, j < n → ∀ k, k < w → (forUpTo body n r).mem (a + (j * stride + k)) = P j k) ∧
      ∀ x, (∀ j, j < n → x < a + j * stride ∨ a + j * stride + w ≤ x) →
        (forUpTo body n r).mem x = r.mem x := by
  induction n with
  | zero => exact ⟨fun j hj => absurd hj (Nat.not_lt_zero j), fun _ _ => rfl⟩
  | succ n ih =>
      obtain ⟨hin, hout⟩ := ih fun j hj => hbody j (by omega)
      obtain ⟨hlast, hothers⟩ := hbody n (by omega) (forUpTo body n r)
      rw [forUpTo]
      refine ⟨fun j hj k hk => ?_, fun x hx => ?_⟩
      · by_cases heq : j = n
        · subst heq
          exact hlast k hk
        · have hless : (j + 1) * stride ≤ n * stride := Nat.mul_le_mul_right _ (by omega)
          rw [Nat.succ_mul] at hless
          rw [hothers _ (Or.inl (by omega))]
          exact hin j (by omega) k hk
      · rw [hothers x (hx n (by omega))]
        exact hout x fun j hj => hx j (by omega)

/-- A byte of a copy has been stored to. -/
theorem store_storesAt_add (bs : List UInt8) : ∀ {a k : Nat} (r : Recorded), a < 2 ^ 64 →
    k < bs.length → StoresAt (u64 (a + k)) r (r.store a bs) := by
  induction bs with
  | nil => exact fun r _ hk => absurd hk (Nat.not_lt_zero _)
  | cons b bs ih =>
      intro a k r ha hk
      have hfirst : Within (fun _ => True) r ⟨Function.update r.mem a b, a :: r.stored⟩ :=
        ⟨[a], rfl, fun _ _ => trivial⟩
      cases k with
      | zero =>
          rw [Nat.add_zero, u64_of_lt ha]
          exact store_storesAt b bs a r
      | succ k =>
          have haddr : u64 (a + (k + 1)) = u64 (u64 (a + 1) + k) := by
            unfold u64
            omega
          rw [haddr]
          exact (ih _ (u64_lt _) (by simpa using hk)).before hfirst

theorem moves_storesAt (width : Nat) : ∀ (n : Nat) {dest k : Nat} (src : Nat) (r : Recorded),
    dest < 2 ^ 64 → k < n * width → StoresAt (u64 (dest + k)) r (moves width dest src n r) := by
  intro n
  induction n with
  | zero => exact fun _ _ _ hk => by omega
  | succ n ih =>
      intro dest k src r hdest hk
      rw [Nat.succ_mul] at hk
      have hfirst : Within (fun _ => True) r (r.store dest (r.load src width)) :=
        store_within (r.load src width) r (fun _ _ => trivial) hdest
      have hrest : ∀ r', Within (fun _ => True) r'
          (moves width (u64 (dest + width)) (u64 (src + width)) n r') :=
        fun r' => moves_within width n _ r' (u64_lt _) fun _ _ => trivial
      rw [moves]
      by_cases hk0 : k < width
      · exact (store_storesAt_add (r.load src width) r hdest (by rwa [load_length])).after
          (hrest _)
      · have haddr : u64 (dest + k) = u64 (u64 (dest + width) + (k - width)) := by
          unfold u64
          omega
        rw [haddr]
        exact (ih _ _ (u64_lt _) (by omega)).before hfirst

theorem memcpy_storesAt (dest src : Nat) {num k : Nat} (r : Recorded) (hdest : dest < 2 ^ 64)
    (hk : k < num) : StoresAt (u64 (dest + k)) r (memcpy dest src num r) := by
  have hwords : Within (fun _ => True) r (moves 8 dest src (num / 8) r) :=
    moves_within 8 (num / 8) src r hdest fun _ _ => trivial
  have hbytes : ∀ r', Within (fun _ => True) r'
      (moves 1 (u64 (dest + num / 8 * 8)) (u64 (src + num / 8 * 8)) (num % 8) r') :=
    fun r' => moves_within 1 (num % 8) _ r' (u64_lt _) fun _ _ => trivial
  rw [memcpy]
  by_cases hword : k < num / 8 * 8
  · exact (moves_storesAt 8 (num / 8) src r hdest hword).after (hbytes _)
  · have haddr : u64 (dest + k) = u64 (u64 (dest + num / 8 * 8) + (k - num / 8 * 8)) := by
      unfold u64
      omega
    rw [haddr]
    exact (moves_storesAt 1 (num % 8) _ _ (u64_lt _) (by omega)).before hwords

end Recorded

end Windozz
