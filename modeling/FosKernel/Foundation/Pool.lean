import Mathlib.Data.Finset.Card
import Mathlib.Data.List.Nodup

/-! # Pools of resources

A fixed set of resources is divided between a list of free ones and cells that own one
each. The rules say how the division changes when a cell takes a free resource or gives
its own back.
-/

namespace FosKernel

/-- Every resource is either free or owned by exactly one cell. -/
structure Pool (resources : Finset ρ) (free : List ρ) (owned : σ → Option ρ) : Prop where
  nodup : free.Nodup
  known : ∀ resource ∈ free, resource ∈ resources
  taken : ∀ cell resource, owned cell = some resource →
    resource ∈ resources ∧ resource ∉ free
  unique : ∀ left right resource, owned left = some resource →
    owned right = some resource → left = right
  complete : ∀ resource ∈ resources, resource ∈ free ∨ ∃ cell, owned cell = some resource

namespace Pool

variable {resources : Finset ρ} {free : List ρ} {owned : σ → Option ρ}
variable {cell : σ} {resource : ρ}

theorem congr (pool : Pool resources free owned) {after : σ → Option ρ}
    (equal : ∀ cell, after cell = owned cell) : Pool resources free after := by
  rwa [show after = owned from funext equal]

/-- A cell takes the first free resource. -/
theorem take (pool : Pool resources (resource :: free) owned) (empty : owned cell = none)
    {after : σ → Option ρ} (own : after cell = some resource)
    (others : ∀ other, other ≠ cell → after other = owned other) :
    Pool resources free after where
  nodup := (List.nodup_cons.mp pool.nodup).2
  known other member := pool.known other (List.mem_cons_of_mem _ member)
  taken := by
    intro other someResource has
    by_cases same : other = cell
    · rw [same, own, Option.some.injEq] at has
      subst has
      exact ⟨pool.known resource (by simp), (List.nodup_cons.mp pool.nodup).1⟩
    · rw [others other same] at has
      have before := pool.taken other someResource has
      exact ⟨before.1, fun member => before.2 (List.mem_cons_of_mem _ member)⟩
  unique := by
    have fresh : ∀ other, other ≠ cell → after other ≠ some resource := by
      intro other different has
      rw [others other different] at has
      exact (pool.taken other resource has).2 (by simp)
    intro left right someResource hasLeft hasRight
    by_cases leftSame : left = cell
    · by_cases rightSame : right = cell
      · rw [leftSame, rightSame]
      · rw [leftSame, own] at hasLeft
        exact absurd (hasRight.trans hasLeft.symm) (fresh right rightSame)
    · by_cases rightSame : right = cell
      · rw [rightSame, own] at hasRight
        exact absurd (hasLeft.trans hasRight.symm) (fresh left leftSame)
      · rw [others left leftSame] at hasLeft
        rw [others right rightSame] at hasRight
        exact pool.unique left right someResource hasLeft hasRight
  complete := by
    intro someResource member
    by_cases same : someResource = resource
    · exact .inr ⟨cell, same ▸ own⟩
    · rcases pool.complete someResource member with inFree | ⟨owner, has⟩
      · exact .inl ((List.mem_cons.mp inFree).resolve_left same)
      · have different : owner ≠ cell := by
          rintro rfl
          simp [empty] at has
        exact .inr ⟨owner, (others owner different).trans has⟩

/-- A cell gives its resource back. -/
theorem give (pool : Pool resources free owned) (has : owned cell = some resource)
    {after : σ → Option ρ} (own : after cell = none)
    (others : ∀ other, other ≠ cell → after other = owned other) :
    Pool resources (resource :: free) after where
  nodup := List.nodup_cons.mpr ⟨(pool.taken cell resource has).2, pool.nodup⟩
  known := by
    intro other member
    rcases List.mem_cons.mp member with rfl | inFree
    · exact (pool.taken cell other has).1
    · exact pool.known other inFree
  taken := by
    intro other someResource hasOther
    have different : other ≠ cell := by
      rintro rfl
      simp [own] at hasOther
    rw [others other different] at hasOther
    have before := pool.taken other someResource hasOther
    refine ⟨before.1, fun member => ?_⟩
    rcases List.mem_cons.mp member with rfl | inFree
    · exact different (pool.unique other cell someResource hasOther has)
    · exact before.2 inFree
  unique := by
    intro left right someResource hasLeft hasRight
    have kept : ∀ other, after other = some someResource →
        owned other = some someResource := by
      intro other hasOther
      have different : other ≠ cell := by
        rintro rfl
        simp [own] at hasOther
      rwa [others other different] at hasOther
    exact pool.unique left right someResource (kept left hasLeft) (kept right hasRight)
  complete := by
    intro someResource member
    rcases pool.complete someResource member with inFree | ⟨owner, hasOwner⟩
    · exact .inl (List.mem_cons_of_mem _ inFree)
    · by_cases same : owner = cell
      · rw [same, has, Option.some.injEq] at hasOwner
        exact .inl (by simp [hasOwner])
      · exact .inr ⟨owner, (others owner same).trans hasOwner⟩

/-- The owners determine what is free. -/
theorem perm (pool : Pool resources free owned) {left : List ρ} {after : σ → Option ρ}
    (later : Pool resources left after) (equal : ∀ cell, after cell = owned cell) :
    left.Perm free := by
  rw [List.perm_ext_iff_of_nodup later.nodup pool.nodup]
  intro resource
  constructor
  · intro member
    rcases pool.complete resource (later.known resource member) with inFree | ⟨cell, has⟩
    · exact inFree
    · exact absurd member (later.taken cell resource ((equal cell).trans has)).2
  · intro member
    rcases later.complete resource (pool.known resource member) with inLeft | ⟨cell, has⟩
    · exact inLeft
    · exact absurd member (pool.taken cell resource ((equal cell).symm.trans has)).2

/-- The free resources and the cells that own one make up all resources. -/
theorem count [DecidableEq ρ] (pool : Pool resources free owned) {cells : Finset σ}
    (owners : ∀ cell, cell ∈ cells ↔ owned cell ≠ none) :
    free.length + cells.card = resources.card := by
  have given : cells.card = (resources \ free.toFinset).card := by
    have injective : Set.InjOn owned cells := by
      intro left leftMember right _ equal
      rcases Option.ne_none_iff_exists'.mp ((owners left).mp leftMember) with ⟨resource, has⟩
      exact pool.unique left right resource has (equal ▸ has)
    have images : cells.image owned = (resources \ free.toFinset).image some := by
      ext value
      rw [Finset.mem_image, Finset.mem_image]
      constructor
      · rintro ⟨cell, member, rfl⟩
        rcases Option.ne_none_iff_exists'.mp ((owners cell).mp member) with ⟨resource, has⟩
        have taken := pool.taken cell resource has
        exact ⟨resource, by simpa using taken, has.symm⟩
      · rintro ⟨resource, member, rfl⟩
        rw [Finset.mem_sdiff, List.mem_toFinset] at member
        rcases pool.complete resource member.1 with inFree | ⟨cell, has⟩
        · exact absurd inFree member.2
        · exact ⟨cell, (owners cell).mpr (by simp [has]), has⟩
    rw [← Finset.card_image_of_injOn injective, images,
      Finset.card_image_of_injective _ (Option.some_injective ρ)]
  have subset : free.toFinset ⊆ resources := by
    intro resource member
    exact pool.known resource (List.mem_toFinset.mp member)
  rw [given, Finset.card_sdiff_of_subset subset, List.toFinset_card_of_nodup pool.nodup]
  have := Finset.card_le_card subset
  rw [List.toFinset_card_of_nodup pool.nodup] at this
  omega

end Pool

end FosKernel
