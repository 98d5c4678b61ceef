import Mathlib.Data.List.Infix
import Mathlib.Data.Set.Insert
import Mathlib.Logic.Function.Basic
import Mathlib.Tactic

set_option autoImplicit false

/-! # Radix trees of tables

A table is an array of entries, an entry may refer to a table one level below, and a key is the
list of the entries chosen on the way down. `walk` follows a path of references and `lookup` reads
what a key is bound to, wherever its walk ends.

In a tree of depth `n` (`Tree`) every table is at the end of one path only. Then the two updates
are local: storing into a table of the last level changes one key (`lookup_set_leaf`), and
linking a fresh cleared table changes none (`lookup_link`).
-/

namespace Windozz.Radix

/-- How entries are read: `down` is the table an entry refers to, and `stop` what a lookup returns
at an entry that refers to none. A table of `empty` entries is a cleared one. -/
structure Format (F V : Type) where
  down : V → Option F
  stop : V → V
  empty : V
  down_empty : down empty = none
  stop_empty : stop empty = empty

variable {F I V : Type}

/-- The contents of the tables. -/
abbrev Tables (F I V : Type) := F → I → V

/-! ## Walks and lookups -/

/-- The table at the end of a path. -/
def walk (fmt : Format F V) (t : Tables F I V) : F → List I → Option F
  | f, [] => some f
  | f, i :: is =>
      match fmt.down (t f i) with
      | some g => walk fmt t g is
      | none => none

/-- What the key with path `is` and last index `j` is bound to. -/
def lookup (fmt : Format F V) (t : Tables F I V) : F → List I → I → V
  | f, [], j => t f j
  | f, i :: is, j =>
      match fmt.down (t f i) with
      | some g => lookup fmt t g is j
      | none => fmt.stop (t f i)

section Walk

variable {fmt : Format F V} {t t' : Tables F I V} {root f : F} {p q : List I} {i j : I}

theorem walk_append (p q : List I) (root : F) :
    walk fmt t root (p ++ q) = (walk fmt t root p).bind fun f => walk fmt t f q := by
  induction p generalizing root with
  | nil => rfl
  | cons i p ih =>
      simp only [List.cons_append, walk]
      cases fmt.down (t root i) with
      | none => rfl
      | some g => exact ih g

theorem walk_singleton (f : F) (i : I) : walk fmt t f [i] = fmt.down (t f i) := by
  rw [walk]
  cases fmt.down (t f i) <;> rfl

theorem walk_concat (hwalk : walk fmt t root p = some f) (i : I) :
    walk fmt t root (p ++ [i]) = fmt.down (t f i) := by
  rw [walk_append, hwalk, Option.bind_some, walk_singleton]

/-- A lookup starts with the walk. -/
theorem lookup_append (hwalk : walk fmt t root p = some f) (q : List I) (j : I) :
    lookup fmt t root (p ++ q) j = lookup fmt t f q j := by
  induction p generalizing root with
  | nil =>
      obtain rfl := Option.some.inj hwalk
      rfl
  | cons i p ih =>
      rw [walk] at hwalk
      rw [List.cons_append, lookup]
      cases hdown : fmt.down (t root i) with
      | none =>
          rw [hdown] at hwalk
          cases hwalk
      | some g =>
          rw [hdown] at hwalk
          exact ih hwalk

theorem lookup_of_walk (hwalk : walk fmt t root p = some f) (j : I) :
    lookup fmt t root p j = t f j := by
  have h := lookup_append hwalk [] j
  rwa [List.append_nil] at h

/-- A lookup that meets an entry without a table below returns what the entry stops with. -/
theorem lookup_stop (hwalk : walk fmt t root p = some f) (hdown : fmt.down (t f i) = none)
    (q : List I) (j : I) : lookup fmt t root (p ++ i :: q) j = fmt.stop (t f i) := by
  rw [lookup_append hwalk, lookup, hdown]

/-- A walk reaches the end of its path or an entry that refers to no table. -/
theorem walk_or_stop (fmt : Format F V) (t : Tables F I V) (p : List I) (root : F) :
    (∃ f, walk fmt t root p = some f) ∨
    ∃ q i r f, p = q ++ i :: r ∧ walk fmt t root q = some f ∧ fmt.down (t f i) = none := by
  induction p generalizing root with
  | nil => exact Or.inl ⟨root, rfl⟩
  | cons i p ih =>
      cases hdown : fmt.down (t root i) with
      | none => exact Or.inr ⟨[], i, p, root, rfl, rfl, hdown⟩
      | some g =>
          have hstep : ∀ q, walk fmt t root (i :: q) = walk fmt t g q := by
            intro q
            rw [walk, hdown]
          rcases ih g with ⟨f, hf⟩ | ⟨q, j, r, f, rfl, hq, hj⟩
          · exact Or.inl ⟨f, (hstep p).trans hf⟩
          · exact Or.inr ⟨i :: q, j, r, f, rfl, (hstep q).trans hq, hj⟩

/-- A lookup returns an entry, or what an entry stops with. -/
theorem lookup_eq_entry (fmt : Format F V) (t : Tables F I V) (p : List I) (root : F) (j : I) :
    ∃ f k, lookup fmt t root p j = t f k ∨ lookup fmt t root p j = fmt.stop (t f k) := by
  induction p generalizing root with
  | nil => exact ⟨root, j, Or.inl rfl⟩
  | cons i p ih =>
      rw [lookup]
      cases fmt.down (t root i) with
      | none => exact ⟨root, i, Or.inr rfl⟩
      | some g => exact ih g

/-- A walk depends on the entries it reads. -/
theorem walk_congr
    (h : ∀ r f k, r ++ [k] <+: p → walk fmt t root r = some f → t' f k = t f k) :
    walk fmt t' root p = walk fmt t root p := by
  induction p generalizing root with
  | nil => rfl
  | cons i p ih =>
      have hentry : t' root i = t root i := h [] root i (by simp) rfl
      rw [walk, walk, hentry]
      cases hdown : fmt.down (t root i) with
      | none => rfl
      | some g =>
          refine ih fun r f k hpre hwalk => h (i :: r) f k ?_ ?_
          · simpa using hpre
          · rw [walk, hdown]
            exact hwalk

/-- A lookup depends on the entries it reads. -/
theorem lookup_congr
    (h : ∀ r f k, r ++ [k] <+: p ++ [j] → walk fmt t root r = some f → t' f k = t f k) :
    lookup fmt t' root p j = lookup fmt t root p j := by
  induction p generalizing root with
  | nil => exact h [] root j (by simp) rfl
  | cons i p ih =>
      have hentry : t' root i = t root i := h [] root i (by simp) rfl
      rw [lookup, lookup, hentry]
      cases hdown : fmt.down (t root i) with
      | none => rfl
      | some g =>
          refine ih fun r f k hpre hwalk => h (i :: r) f k ?_ ?_
          · simpa using hpre
          · rw [walk, hdown]
            exact hwalk

end Walk

/-! ## Trees -/

/-- Up to depth `n`, a table is at the end of one path. -/
def Tree (fmt : Format F V) (t : Tables F I V) (root : F) (n : Nat) : Prop :=
  ∀ p q f, p.length ≤ n → q.length ≤ n → walk fmt t root p = some f →
    walk fmt t root q = some f → p = q

/-- The tables of the tree. -/
def tables (fmt : Format F V) (t : Tables F I V) (root : F) (n : Nat) : Set F :=
  {f | ∃ p, p.length ≤ n ∧ walk fmt t root p = some f}

/-- The entries that the walk of a path meets have a property. -/
def Along (fmt : Format F V) (t : Tables F I V) (root : F) (is : List I) (P : V → Prop) : Prop :=
  ∀ p i q f, is = p ++ i :: q → walk fmt t root p = some f → P (t f i)

section Tree

variable {fmt : Format F V} {t : Tables F I V} {root f g h : F} {p q : List I} {i : I} {n : Nat}

/-- A walk does not end in a fresh table. -/
theorem ne_fresh (hfresh : g ∉ tables fmt t root n) (hq : q.length ≤ n)
    (hwq : walk fmt t root q = some h) : h ≠ g := by
  rintro rfl
  exact hfresh ⟨q, hq, hwq⟩

/-- No walk passes an entry that refers to no table. -/
theorem walk_unlinked (hwalk : walk fmt t root p = some f) (hnone : fmt.down (t f i) = none)
    (hpre : p ++ [i] <+: q) : walk fmt t root q = none := by
  obtain ⟨r, rfl⟩ := hpre
  rw [List.append_assoc, List.singleton_append, walk_append, hwalk, Option.bind_some, walk, hnone]

/-! ### Changes outside the tree -/

section Frame

variable {t' : Tables F I V} (hsame : ∀ f ∈ tables fmt t root n, t' f = t f)

include hsame

theorem walk_frame (hq : q.length ≤ n) : walk fmt t' root q = walk fmt t root q := by
  refine walk_congr fun r f k hpre hr => ?_
  have hlen := hpre.length_le
  rw [List.length_append, List.length_singleton] at hlen
  rw [hsame f ⟨r, by omega, hr⟩]

theorem lookup_frame (hq : q.length ≤ n) (j : I) :
    lookup fmt t' root q j = lookup fmt t root q j := by
  refine lookup_congr fun r f k hpre hr => ?_
  have hlen := hpre.length_le
  rw [List.length_append, List.length_append, List.length_singleton, List.length_singleton] at hlen
  rw [hsame f ⟨r, by omega, hr⟩]

theorem tree_frame (htree : Tree fmt t root n) : Tree fmt t' root n := by
  intro q r g hq hr hwq hwr
  rw [walk_frame hsame hq] at hwq
  rw [walk_frame hsame hr] at hwr
  exact htree q r g hq hr hwq hwr

theorem tables_frame : tables fmt t' root n = tables fmt t root n := by
  ext g
  refine exists_congr fun r => and_congr_right fun hr => ?_
  rw [walk_frame hsame hr]

theorem along_frame {P : V → Prop} (hq : q.length ≤ n) (halong : Along fmt t root q P) :
    Along fmt t' root q P := by
  rintro r k u g rfl hwr
  rw [List.length_append, List.length_cons] at hq
  rw [walk_frame hsame (by omega)] at hwr
  rw [hsame g ⟨r, by omega, hwr⟩]
  exact halong r k u g rfl hwr

end Frame

end Tree

variable [DecidableEq F]

/-- The tables with all entries of `f` replaced by one. -/
def fill (t : Tables F I V) (f : F) (v : V) : Tables F I V := Function.update t f fun _ => v

theorem fill_self {t : Tables F I V} {f : F} {v : V} {k : I} : fill t f v f k = v := by simp [fill]

theorem fill_of_ne {t : Tables F I V} {f g : F} {v : V} {k : I} (hg : g ≠ f) :
    fill t f v g k = t g k := by
  simp [fill, hg]

variable [DecidableEq I]

/-- The tables with entry `i` of `f` replaced. -/
def set (t : Tables F I V) (f : F) (i : I) (v : V) : Tables F I V :=
  Function.update t f (Function.update (t f) i v)

section Update

variable {fmt : Format F V} {t : Tables F I V} {root f g h : F} {p q : List I} {i j k : I} {v : V}
  {n : Nat}

theorem set_self : set t f i v f i = v := by simp [set]

theorem set_of_index_ne (hk : k ≠ i) : set t f i v f k = t f k := by simp [set, hk]

theorem set_of_table_ne (hg : g ≠ f) : set t f i v g k = t g k := by simp [set, hg]

/-! ### Storing into the last level -/

section Leaf

variable (htree : Tree fmt t root n) (hp : p.length = n) (hwalk : walk fmt t root p = some f)

include htree hp hwalk

/-- Storing into a table of the last level changes no walk. -/
theorem walk_set_leaf (hq : q.length ≤ n) :
    walk fmt (set t f i v) root q = walk fmt t root q := by
  refine walk_congr fun r g k hpre hr => set_of_table_ne ?_
  rintro rfl
  have hlen := hpre.length_le
  rw [List.length_append, List.length_singleton] at hlen
  have heq := htree r p g (by omega) (by omega) hr hwalk
  rw [heq] at hlen
  omega

theorem tree_set_leaf : Tree fmt (set t f i v) root n := by
  intro q r g hq hr hwq hwr
  rw [walk_set_leaf htree hp hwalk hq] at hwq
  rw [walk_set_leaf htree hp hwalk hr] at hwr
  exact htree q r g hq hr hwq hwr

/-- The entries that walks meet are as before. -/
theorem along_set_leaf {is : List I} {P : V → Prop} (his : is.length ≤ n)
    (halong : Along fmt t root is P) : Along fmt (set t f i v) root is P := by
  rintro q k r g rfl hwq
  rw [List.length_append, List.length_cons] at his
  rw [walk_set_leaf htree hp hwalk (by omega)] at hwq
  have hg : g ≠ f := by
    rintro rfl
    have heq := htree q p g (by omega) (by omega) hwq hwalk
    rw [heq] at his
    omega
  rw [set_of_table_ne hg]
  exact halong q k r g rfl hwq

theorem tables_set_leaf : tables fmt (set t f i v) root n = tables fmt t root n := by
  ext g
  refine exists_congr fun q => and_congr_right fun hq => ?_
  rw [walk_set_leaf htree hp hwalk hq]

/-- The key stored at is bound to the value. -/
theorem lookup_set_leaf_same : lookup fmt (set t f i v) root p i = v := by
  rw [lookup_of_walk ((walk_set_leaf htree hp hwalk (le_of_eq hp)).trans hwalk), set_self]

/-- Storing into a table of the last level changes no other key. -/
theorem lookup_set_leaf (hq : q.length = n) (hne : ¬ (q = p ∧ j = i)) :
    lookup fmt (set t f i v) root q j = lookup fmt t root q j := by
  refine lookup_congr fun r g k hpre hr => ?_
  by_cases hg : g = f
  · subst hg
    have hlen := hpre.length_le
    rw [List.length_append, List.length_append, List.length_singleton, List.length_singleton] at hlen
    obtain rfl := htree r p g (by omega) (by omega) hr hwalk
    have hfull := hpre.eq_of_length (by simp [hp, hq])
    obtain ⟨hqr, hkj⟩ := List.append_inj' hfull rfl
    refine set_of_index_ne fun hk => hne ⟨hqr.symm, ?_⟩
    rw [← hk]
    exact (List.cons.inj hkj).1.symm
  · exact set_of_table_ne hg

end Leaf

/-! ### Linking a fresh table -/

/-- The tables with a cleared table `g` linked at entry `i` of `f`. -/
def link (fmt : Format F V) (t : Tables F I V) (f : F) (i : I) (v : V) (g : F) : Tables F I V :=
  fill (set t f i v) g fmt.empty

section Link

variable (htree : Tree fmt t root n) (hp : p.length < n) (hwalk : walk fmt t root p = some f)
  (hnone : fmt.down (t f i) = none) (hdown : fmt.down v = some g)
  (hfresh : g ∉ tables fmt t root n)

include htree hp hwalk hfresh in
/-- The entries that the tree has off the link are as before. -/
theorem link_entry (hq : q.length ≤ n) (hwq : walk fmt t root q = some h)
    (hne : ¬ (q = p ∧ k = i)) : link fmt t f i v g h k = t h k := by
  rw [link, fill_of_ne (ne_fresh hfresh hq hwq)]
  by_cases hf : h = f
  · subst hf
    obtain rfl := htree q p h hq (le_of_lt hp) hwq hwalk
    exact set_of_index_ne fun hk => hne ⟨rfl, hk⟩
  · exact set_of_table_ne hf

include htree hp hwalk hfresh in
/-- A walk off the link is as before. -/
theorem walk_link_off (hq : q.length ≤ n) (hoff : ¬ p ++ [i] <+: q) :
    walk fmt (link fmt t f i v g) root q = walk fmt t root q := by
  refine walk_congr fun r h k hpre hr => ?_
  have hlen := hpre.length_le
  rw [List.length_append, List.length_singleton] at hlen
  refine link_entry htree hp hwalk hfresh (by omega) hr ?_
  rintro ⟨rfl, rfl⟩
  exact hoff hpre

include htree hp hwalk hfresh hdown in
/-- The link leads to the fresh table. -/
theorem walk_link_self : walk fmt (link fmt t f i v g) root (p ++ [i]) = some g := by
  have hbefore : walk fmt (link fmt t f i v g) root p = some f := by
    rw [walk_link_off htree hp hwalk hfresh (le_of_lt hp), hwalk]
    intro hpre
    have hlen := hpre.length_le
    rw [List.length_append, List.length_singleton] at hlen
    omega
  rw [walk_concat hbefore, link, fill_of_ne (ne_fresh hfresh (le_of_lt hp) hwalk), set_self, hdown]

include htree hp hwalk hfresh hdown in
/-- Nothing is linked below the fresh table. -/
theorem walk_link_below (r : List I) :
    walk fmt (link fmt t f i v g) root (p ++ [i] ++ k :: r) = none := by
  rw [walk_append, walk_link_self htree hp hwalk hdown hfresh, Option.bind_some, walk, link,
    fill_self, fmt.down_empty]

include htree hp hwalk hnone hdown hfresh

/-- The walks after the link: the one to the fresh table and those there were. -/
theorem walk_link_iff (hq : q.length ≤ n) :
    walk fmt (link fmt t f i v g) root q = some h ↔
      q = p ++ [i] ∧ h = g ∨ walk fmt t root q = some h := by
  by_cases hpre : p ++ [i] <+: q
  · rw [walk_unlinked hwalk hnone hpre]
    obtain ⟨r, rfl⟩ := hpre
    cases r with
    | nil =>
        rw [List.append_nil, walk_link_self htree hp hwalk hdown hfresh]
        simp [eq_comm]
    | cons k r =>
        rw [walk_link_below htree hp hwalk hdown hfresh]
        simp
  · rw [walk_link_off htree hp hwalk hfresh hq hpre]
    constructor
    · exact Or.inr
    · rintro (⟨rfl, -⟩ | hw)
      · exact absurd (List.prefix_refl _) hpre
      · exact hw

theorem tree_link : Tree fmt (link fmt t f i v g) root n := by
  intro q r h hq hr hwq hwr
  rw [walk_link_iff htree hp hwalk hnone hdown hfresh hq] at hwq
  rw [walk_link_iff htree hp hwalk hnone hdown hfresh hr] at hwr
  rcases hwq with ⟨rfl, rfl⟩ | hwq
  · rcases hwr with ⟨rfl, -⟩ | hwr
    · rfl
    · exact absurd rfl (ne_fresh hfresh hr hwr)
  · rcases hwr with ⟨rfl, rfl⟩ | hwr
    · exact absurd rfl (ne_fresh hfresh hq hwq)
    · exact htree q r h hq hr hwq hwr

/-- The link adds the fresh table to the tree. -/
theorem tables_link : tables fmt (link fmt t f i v g) root n = insert g (tables fmt t root n) := by
  ext h
  constructor
  · rintro ⟨q, hq, hwq⟩
    rw [walk_link_iff htree hp hwalk hnone hdown hfresh hq] at hwq
    rcases hwq with ⟨-, rfl⟩ | hwq
    · exact Set.mem_insert _ _
    · exact Set.mem_insert_of_mem _ ⟨q, hq, hwq⟩
  · rintro (rfl | ⟨q, hq, hwq⟩)
    · exact ⟨p ++ [i], by simpa using hp, walk_link_self htree hp hwalk hdown hfresh⟩
    · exact ⟨q, hq, (walk_link_iff htree hp hwalk hnone hdown hfresh hq).mpr (Or.inr hwq)⟩

/-- The entries along a path keep a property that the new entries have. -/
theorem along_link {is : List I} {P : V → Prop} (his : is.length ≤ n) (hv : P v)
    (hempty : P fmt.empty) (halong : Along fmt t root is P) :
    Along fmt (link fmt t f i v g) root is P := by
  rintro q k r h rfl hwq
  rw [List.length_append, List.length_cons] at his
  rw [walk_link_iff htree hp hwalk hnone hdown hfresh (by omega)] at hwq
  rcases hwq with ⟨-, rfl⟩ | hwq
  · rw [link, fill_self]
    exact hempty
  · by_cases hk : q = p ∧ k = i
    · obtain ⟨rfl, rfl⟩ := hk
      obtain rfl := Option.some.inj (hwq.symm.trans hwalk)
      rw [link, fill_of_ne (ne_fresh hfresh (by omega) hwq), set_self]
      exact hv
    · rw [link_entry htree hp hwalk hfresh (by omega) hwq hk]
      exact halong q k r h rfl hwq

/-- **Linking is invisible.** When the entry stopped lookups with the empty value, no key changes
by the link. -/
theorem lookup_link (hstop : fmt.stop (t f i) = fmt.empty) (hq : q.length = n) (j : I) :
    lookup fmt (link fmt t f i v g) root q j = lookup fmt t root q j := by
  by_cases hpre : p ++ [i] <+: q
  · obtain ⟨r, rfl⟩ := hpre
    have hbefore : lookup fmt t root (p ++ [i] ++ r) j = fmt.empty := by
      rw [List.append_assoc, List.singleton_append, lookup_stop hwalk hnone, hstop]
    rw [hbefore, lookup_append (walk_link_self htree hp hwalk hdown hfresh)]
    cases r with
    | nil => exact fill_self
    | cons k r => rw [lookup, link, fill_self, fmt.down_empty, fmt.stop_empty]
  · refine lookup_congr fun r h k hr hwr => ?_
    have hlen := hr.length_le
    rw [List.length_append, List.length_append, List.length_singleton, List.length_singleton] at hlen
    refine link_entry htree hp hwalk hfresh (by omega) hwr ?_
    rintro ⟨rfl, rfl⟩
    exact hpre (List.prefix_of_prefix_length_le hr (List.prefix_append _ _) (by simp; omega))

end Link

end Update

end Windozz.Radix
