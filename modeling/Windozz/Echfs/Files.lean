import Windozz.Echfs.Volume

set_option autoImplicit false

/-! # The files of a volume

Every file entry heads a chain of the allocation table. `Chains` is the invariant of the
allocator: the chains end, have the length the file size asks for, stay in the data blocks and
share no block, and no allocated block is outside them. A command that adds directories does not
touch it, and an import adds a chain of free blocks to it, so it holds after every run
(`run_consistent`), along which the blocks of a file never change.
-/

namespace Windozz.Echfs

open Relation

/-- The chain of a file: from its payload along the table to `END_OF_CHAIN`. -/
structure FileChain (g : Geometry) (img : Image) (e : Entry) (c : List Nat) : Prop where
  head_eq : c.head? = some e.payload.toNat
  linked : Linked (fatNext g img) c
  length_eq : c.length = blocksFor g e.size.toNat
  in_data : InData g {b | b ∈ c}

/-- `chain i` is the chain of entry `i`, if that is a file. -/
structure Chains (g : Geometry) (img : Image) (es : List Entry) (chain : Nat → List Nat) : Prop where
  chained : ∀ (i : Nat) (e : Entry), es[i]? = some e → e.type = FILE_TYPE →
    FileChain g img e (chain i)
  disjoint : ∀ (i j : Nat) (e f : Entry), es[i]? = some e → es[j]? = some f → e.type = FILE_TYPE →
    f.type = FILE_TYPE → i ≠ j → List.Disjoint (chain i) (chain j)
  owned : ∀ b, b < g.blocks → fat g img b ≠ 0 → fat g img b ≠ RESERVED_BLOCK →
    ∃ (i : Nat) (e : Entry), es[i]? = some e ∧ e.type = FILE_TYPE ∧ b ∈ chain i

section Chain

variable {g : Geometry} (hg : g.Sound) {img img' : Image} {e : Entry} {c : List Nat} {b : Nat}

include hg in
/-- A block of a chain is allocated. -/
theorem FileChain.allocated (h : FileChain g img e c) (hb : b ∈ c) :
    fat g img b ≠ 0 ∧ fat g img b ≠ RESERVED_BLOCK := by
  have hblocks := hg.blocks_lt
  have hpos := hg.datastart_pos
  obtain ⟨k, hk⟩ := List.mem_iff_getElem?.mp hb
  have hnext := h.linked.next_getElem? hk
  rw [fatNext] at hnext
  by_cases hend : fat g img b = END_OF_CHAIN
  · rw [hend]
    decide
  · rw [if_neg hend] at hnext
    obtain ⟨hlo, hhi⟩ := h.in_data _ (List.mem_of_getElem? hnext.symm)
    refine ⟨by omega, ?_⟩
    simp only [RESERVED_BLOCK]
    omega

/-- A chain is kept by a change that keeps its table entries. -/
theorem FileChain.congr (h : FileChain g img e c) (hfat : ∀ b ∈ c, fat g img' b = fat g img b) :
    FileChain g img' e c :=
  ⟨h.head_eq, Linked.congr (fun b hb => by rw [fatNext, fatNext, hfat b hb]) h.linked,
    h.length_eq, h.in_data⟩

end Chain

/-- The blocks `c` and their table entries are the same in both images. -/
def BlocksKept (g : Geometry) (img img' : Image) (c : List Nat) : Prop :=
  ∀ b ∈ c, fat g img' b = fat g img b ∧ block g img' b = block g img b

theorem BlocksKept.trans {g : Geometry} {img img' img'' : Image} {c : List Nat}
    (h : BlocksKept g img img' c) (h' : BlocksKept g img' img'' c) : BlocksKept g img img'' c :=
  fun b hb => ⟨(h' b hb).1.trans (h b hb).1, (h' b hb).2.trans (h b hb).2⟩

section Steps

variable {g : Geometry} {img img' : Image} {es ds : List Entry} {chain : Nat → List Nat}
  {f : Entry} {d : List Nat}

/-- Added directories change no file. -/
theorem FileChain.prepared (h : FileChain g img f d) (hp : Prepared g img img' es ds) :
    FileChain g img' f d ∧ BlocksKept g img img' d := by
  refine ⟨h.congr fun b hb => hp.same.fat_eq b (h.in_data b hb).2, fun b hb => ?_⟩
  obtain ⟨hlo, hhi⟩ := h.in_data b hb
  exact ⟨hp.same.fat_eq b hhi, hp.same.block_eq b hlo hhi⟩

/-- An import takes no block of another file. -/
theorem FileChain.not_mem (hg : g.Sound) (h : FileChain g img f d) {source argv4 : List UInt8}
    {e : Entry} {c : List Nat} (hi : Imported g source argv4 img img' es e c) {b : Nat}
    (hb : b ∈ d) : b ∉ c :=
  fun hbc => (h.allocated hg hb).1 (hi.was_free b hbc)

/-- An import changes no other file. -/
theorem FileChain.imported (hg : g.Sound) (h : FileChain g img f d) {source argv4 : List UInt8}
    {e : Entry} {c : List Nat} (hi : Imported g source argv4 img img' es e c) :
    FileChain g img' f d ∧ BlocksKept g img img' d := by
  refine ⟨h.congr fun b hb => hi.fat_eq b (h.in_data b hb).2 (h.not_mem hg hi hb), fun b hb => ?_⟩
  obtain ⟨hlo, hhi⟩ := h.in_data b hb
  exact ⟨hi.fat_eq b hhi (h.not_mem hg hi hb), hi.block_eq b hlo hhi (h.not_mem hg hi hb)⟩

/-- The chain of an imported file. -/
theorem Imported.fileChain {source argv4 : List UInt8} {e : Entry} {c : List Nat}
    (hi : Imported g source argv4 img img' es e c) : FileChain g img' e c :=
  ⟨hi.head_eq, hi.linked, by rw [hi.size_eq, hi.length_eq], hi.in_data⟩

/-- One command changes no file there is. -/
theorem FileChain.step (hvol : Volume g img es) (h : FileChain g img f d) (hstep : Step img img') :
    FileChain g img' f d ∧ BlocksKept g img img' d := by
  obtain ⟨ds, img₁, hprep, rfl | ⟨source, argv4, e, c, himp⟩⟩ := hvol.step hstep
  · exact h.prepared hprep
  · obtain ⟨h', hkept⟩ := h.prepared hprep
    obtain ⟨h'', hkept'⟩ := h'.imported hvol.formatted.sound himp
    exact ⟨h'', hkept.trans hkept'⟩

/-- A run changes no file there is. -/
theorem FileChain.run (hvol : Volume g img es) (h : FileChain g img f d) (hrun : Run img img') :
    FileChain g img' f d ∧ BlocksKept g img img' d := by
  induction hrun with
  | refl => exact ⟨h, fun b _ => ⟨rfl, rfl⟩⟩
  | tail hrun hstep ih =>
      obtain ⟨es', hvol'⟩ := hvol.run hrun
      obtain ⟨h', hkept⟩ := ih
      obtain ⟨h'', hkept'⟩ := h'.step hvol' hstep
      exact ⟨h'', hkept.trans hkept'⟩

/-! ## The chains of all files -/

/-- Added directories have no chain. -/
theorem Chains.prepared (h : Chains g img es chain) (hp : Prepared g img img' es ds) :
    Chains g img' (es ++ ds) chain := by
  have hfile : ∀ (i : Nat) (e : Entry), (es ++ ds)[i]? = some e → e.type = FILE_TYPE →
      es[i]? = some e := by
    intro i e he htype
    by_cases hi : i < es.length
    · rwa [List.getElem?_append_left hi] at he
    · rw [List.getElem?_append_right (by omega)] at he
      have hd := hp.directories e (List.mem_of_getElem? he)
      rw [hd] at htype
      exact absurd htype (by decide)
  refine ⟨?_, ?_, ?_⟩
  · intro i e he htype
    exact ((h.chained i e (hfile i e he htype) htype).prepared hp).1
  · intro i j e f he hf hte htf hne
    exact h.disjoint i j e f (hfile i e he hte) (hfile j f hf htf) hte htf hne
  · intro b hb h0 hres
    rw [hp.same.fat_eq b hb] at h0 hres
    obtain ⟨i, e, he, htype, hmem⟩ := h.owned b hb h0 hres
    obtain ⟨hlt, -⟩ := List.getElem?_eq_some_iff.mp he
    exact ⟨i, e, by rw [List.getElem?_append_left hlt]; exact he, htype, hmem⟩

/-- An import adds the chain of the new file, made of blocks no other file had. -/
theorem Chains.imported (hg : g.Sound) (h : Chains g img es chain) {source argv4 : List UInt8}
    {e : Entry} {c : List Nat} (hi : Imported g source argv4 img img' es e c) :
    Chains g img' (es ++ [e]) (fun i => if i = es.length then c else chain i) := by
  -- the new file is the last entry, and all others keep their index
  have hsplit : ∀ (i : Nat) (f : Entry), (es ++ [e])[i]? = some f →
      i = es.length ∧ f = e ∨ i ≠ es.length ∧ es[i]? = some f := by
    intro i f hf
    by_cases hlt : i < es.length
    · rw [List.getElem?_append_left hlt] at hf
      exact Or.inr ⟨by omega, hf⟩
    · obtain ⟨hlt', -⟩ := List.getElem?_eq_some_iff.mp hf
      simp only [List.length_append, List.length_cons, List.length_nil] at hlt'
      have hieq : i = es.length := by omega
      rw [hieq] at hf
      exact Or.inl ⟨hieq, by simpa using hf.symm⟩
  refine ⟨?_, ?_, ?_⟩
  · intro i f hf htype
    rcases hsplit i f hf with ⟨rfl, rfl⟩ | ⟨hne, hold⟩
    · rw [if_pos rfl]
      exact hi.fileChain
    · rw [if_neg hne]
      exact ((h.chained i f hold htype).imported hg hi).1
  · intro i j f f' hf hf' htf htf' hne
    rcases hsplit i f hf with ⟨rfl, rfl⟩ | ⟨hni, hold⟩
    · rcases hsplit j f' hf' with ⟨rfl, -⟩ | ⟨hnj, hold'⟩
      · exact absurd rfl hne
      · rw [if_pos rfl, if_neg hnj]
        exact fun b hb hb' => (h.chained j f' hold' htf').not_mem hg hi hb' hb
    · rcases hsplit j f' hf' with ⟨rfl, rfl⟩ | ⟨hnj, hold'⟩
      · rw [if_neg hni, if_pos rfl]
        exact fun b hb hb' => (h.chained i f hold htf).not_mem hg hi hb hb'
      · rw [if_neg hni, if_neg hnj]
        exact h.disjoint i j f f' hold hold' htf htf' hne
  · intro b hb h0 hres
    by_cases hbc : b ∈ c
    · exact ⟨es.length, e, by simp, hi.type_eq, by rw [if_pos rfl]; exact hbc⟩
    · rw [hi.fat_eq b hb hbc] at h0 hres
      obtain ⟨i, f, hf, htype, hmem⟩ := h.owned b hb h0 hres
      obtain ⟨hlt, -⟩ := List.getElem?_eq_some_iff.mp hf
      exact ⟨i, f, by rw [List.getElem?_append_left hlt]; exact hf, htype,
        by rw [if_neg (by omega)]; exact hmem⟩

end Steps

/-- One command keeps the chains of the files there are. -/
theorem Chains.step {g : Geometry} {img img' : Image} {es : List Entry} {chain : Nat → List Nat}
    (hvol : Volume g img es) (h : Chains g img es chain) (hstep : Step img img') :
    ∃ es' chain', Volume g img' (es ++ es') ∧ Chains g img' (es ++ es') chain' ∧
      ∀ i, i < es.length → chain' i = chain i := by
  obtain ⟨ds, img₁, hprep, rfl | ⟨source, argv4, e, c, himp⟩⟩ := hvol.step hstep
  · exact ⟨ds, chain, hprep.volume, h.prepared hprep, fun _ _ => rfl⟩
  · refine ⟨ds ++ [e], _, by rw [← List.append_assoc]; exact himp.volume,
      by rw [← List.append_assoc]; exact (h.prepared hprep).imported hvol.formatted.sound himp,
      fun i hi => if_neg ?_⟩
    rw [List.length_append]
    omega

/-- A run keeps the chains of the files there are. -/
theorem Chains.run {g : Geometry} {img img' : Image} {es : List Entry} {chain : Nat → List Nat}
    (hvol : Volume g img es) (h : Chains g img es chain) (hrun : Run img img') :
    ∃ es' chain', Volume g img' (es ++ es') ∧ Chains g img' (es ++ es') chain' ∧
      ∀ i, i < es.length → chain' i = chain i := by
  induction hrun with
  | refl =>
      exact ⟨[], chain, by rw [List.append_nil]; exact hvol, by rw [List.append_nil]; exact h,
        fun _ _ => rfl⟩
  | tail _ hstep ih =>
      obtain ⟨es', chain', hvol', hch', hsame⟩ := ih
      obtain ⟨es'', chain'', hvol'', hch'', hsame'⟩ := hch'.step hvol' hstep
      refine ⟨es' ++ es'', chain'', by rw [← List.append_assoc]; exact hvol'',
        by rw [← List.append_assoc]; exact hch'', fun i hi => ?_⟩
      rw [hsame' i (by rw [List.length_append]; omega), hsame i hi]

/-- A fresh volume has no chains. -/
theorem Fresh.chains {g : Geometry} {img : Image} (h : Fresh g img) :
    Chains g img [] (fun _ => []) := by
  obtain ⟨hform, hzero, -⟩ := h.spec
  refine ⟨by simp, by simp, fun b hb h0 hres => ?_⟩
  by_cases hlo : b < g.datastart
  · exact absurd (hform.reserved b hlo) hres
  · exact absurd (hzero b (by omega) hb) h0

/-! ## The allocation table after any run -/

/-- The files of a volume. -/
structure Consistent (g : Geometry) (img : Image) (es : List Entry) (chain : Nat → List Nat) :
    Prop where
  table : Table g img es
  /-- Each file has its chain: linked from its payload to `END_OF_CHAIN` and acyclic, with
  `max(1, ceil(size / bytesperblock))` blocks, all of them data blocks. -/
  chained : ∀ (i : Nat) (e : Entry), es[i]? = some e → e.type = FILE_TYPE →
    (chain i).head? = some e.payload.toNat ∧ Linked (fatNext g img) (chain i) ∧ (chain i).Nodup ∧
      (chain i).length = max 1 ((e.size.toNat + g.bytesperblock - 1) / g.bytesperblock) ∧
      ∀ b ∈ chain i, g.datastart ≤ b ∧ b < g.blocks
  disjoint : ∀ (i j : Nat) (e f : Entry), es[i]? = some e → es[j]? = some f → e.type = FILE_TYPE →
    f.type = FILE_TYPE → i ≠ j → List.Disjoint (chain i) (chain j)
  /-- No leak: an allocated block belongs to exactly one file. -/
  owned : ∀ b, b < g.blocks → fat g img b ≠ 0 → fat g img b ≠ RESERVED_BLOCK →
    ∃! i, ∃ e : Entry, es[i]? = some e ∧ e.type = FILE_TYPE ∧ b ∈ chain i

theorem Chains.consistent {g : Geometry} {img : Image} {es : List Entry} {chain : Nat → List Nat}
    (hvol : Volume g img es) (h : Chains g img es chain) : Consistent g img es chain := by
  refine ⟨hvol.table, ?_, h.disjoint, ?_⟩
  · intro i e he htype
    have hc := h.chained i e he htype
    exact ⟨hc.head_eq, hc.linked, hc.linked.nodup, hc.length_eq, hc.in_data⟩
  · intro b hb h0 hres
    obtain ⟨i, e, he, htype, hmem⟩ := h.owned b hb h0 hres
    refine ⟨i, ⟨e, he, htype, hmem⟩, ?_⟩
    rintro j ⟨f, hf, htype', hmem'⟩
    by_contra hne
    exact h.disjoint i j e f he hf htype htype' (Ne.symm hne) hmem hmem'

/-- **The allocator's invariant survives every run.** After any sequence of completed `mkdir` and
`import` commands on a freshly formatted volume the files are consistent, and the rest of the
sequence, however long, leaves the chains, table entries and data blocks of the files imported so
far as they are. -/
theorem run_consistent {g : Geometry} {img₀ img₁ img₂ : Image} (hfresh : Fresh g img₀)
    (hrun₁ : Run img₀ img₁) (hrun₂ : Run img₁ img₂) :
    ∃ es₁ es₂ chain₁ chain₂, Consistent g img₁ es₁ chain₁ ∧
      Consistent g img₂ (es₁ ++ es₂) chain₂ ∧ (∀ i, i < es₁.length → chain₂ i = chain₁ i) ∧
      ∀ (i : Nat) (e : Entry), es₁[i]? = some e → e.type = FILE_TYPE →
        BlocksKept g img₁ img₂ (chain₁ i) := by
  obtain ⟨es₁, chain₁, hvol₁, hch₁, -⟩ := hfresh.chains.run hfresh.volume hrun₁
  obtain ⟨es₂, chain₂, hvol₂, hch₂, hsame⟩ := hch₁.run hvol₁ hrun₂
  exact ⟨[] ++ es₁, es₂, chain₁, chain₂, hch₁.consistent hvol₁, hch₂.consistent hvol₂, hsame,
    fun i e he htype => ((hch₁.chained i e he htype).run hvol₁ hrun₂).2⟩

/-- A file before and a file after `mkdir b`. -/
theorem run_consistent_sample : ∃ img₁ img₂ img₃ img₄, SampleRun img₁ img₂ img₃ img₄ ∧
    ∃ es₁ es₂ chain₁ chain₂, Consistent (volumeOf 40 512) img₂ es₁ chain₁ ∧
      Consistent (volumeOf 40 512) img₄ (es₁ ++ es₂) chain₂ ∧
      (∀ i, i < es₁.length → chain₂ i = chain₁ i) ∧
      ∀ (i : Nat) (e : Entry), es₁[i]? = some e → e.type = FILE_TYPE →
        BlocksKept (volumeOf 40 512) img₂ img₄ (chain₁ i) := by
  obtain ⟨img₁, img₂, img₃, img₄, hsample, hrun, hrun', -⟩ := sampleRun
  exact ⟨img₁, img₂, img₃, img₄, hsample, run_consistent sampleVolume_fresh hrun hrun'⟩

end Windozz.Echfs
