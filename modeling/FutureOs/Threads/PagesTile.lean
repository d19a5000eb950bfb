import FutureOs.Threads.Paging

/-!
# Pages tile the list

The pages of a scope together with its pinned conversations should give every visible
conversation once.  What decides it is the lineage: which roots a conversation lies
below, through conversations that are not deleted.
-/

namespace FutureOs
namespace Threads

/-! ## Lineage -/

/-- `r` is `t`, or `t` was forked from it through conversations that are not deleted. -/
def Above (store : Store) (r t : Thread) : Prop :=
  Relation.ReflTransGen (Digraph.Edge store.forks) r.id t.id

theorem Above.refl (store : Store) (t : Thread) : Above store t t :=
  Relation.ReflTransGen.refl

theorem eq_of_id
    {store : Store}
    {t t' : Thread}
    (ht : t ∈ store.threads)
    (ht' : t' ∈ store.threads)
    (h : t.id = t'.id) :
    t = t' :=
  List.inj_on_of_nodup_map store.thread_ids ht ht' h

/-- What a page has below its roots. -/
theorem mem_descendantsOf
    {store : Store}
    {scope : ThreadScope}
    {rows : List Thread}
    (hrows : ∀ r ∈ rows, r ∈ store.threads)
    {t : Thread} :
    t ∈ store.descendantsOf (rows.map (·.id)) scope ↔
      t ∈ store.threads ∧ store.admits scope t = true ∧ t ∉ rows ∧
        ∃ r ∈ rows, Above store r t := by
  have hmem : ∀ t ∈ store.threads, (rows.map (·.id)).contains t.id = true ↔ t ∈ rows := by
    intro t ht
    rw [List.contains_iff_mem, List.mem_map]
    constructor
    · rintro ⟨r, hr, hid⟩
      exact eq_of_id (hrows r hr) ht hid ▸ hr
    · intro hr
      exact ⟨t, hr, rfl⟩
  have hbelow : ∀ t ∈ store.threads,
      (store.subtree (rows.map (·.id))).contains t.id = true ↔ ∃ r ∈ rows, Above store r t := by
    intro t ht
    rw [List.contains_iff_mem, Store.subtree, List.mem_filter, Digraph.meets_iff (le_refl _)]
    constructor
    · rintro ⟨_, id, hid, hwalk⟩
      obtain ⟨r, hr, rfl⟩ := List.mem_map.1 hid
      exact ⟨r, hr, hwalk⟩
    · rintro ⟨r, hr, hwalk⟩
      exact ⟨List.mem_map.2 ⟨t, ht, rfl⟩, r.id, List.mem_map.2 ⟨r, hr, rfl⟩, hwalk⟩
  rw [Store.descendantsOf]
  by_cases hempty : rows = []
  · subst hempty
    simp
  · rw [if_neg (by simpa using hempty), Store.mem_newestFirst, List.mem_filter]
    constructor
    · rintro ⟨ht, hpicked⟩
      rw [Bool.and_eq_true, Bool.and_eq_true, hbelow t ht, Bool.not_eq_true',
        Bool.eq_false_iff, Ne, hmem t ht] at hpicked
      exact ⟨ht, hpicked.2, hpicked.1.2, hpicked.1.1⟩
    · rintro ⟨ht, hadmits, hother, habove⟩
      refine ⟨ht, ?_⟩
      rw [Bool.and_eq_true, Bool.and_eq_true, hbelow t ht, Bool.not_eq_true',
        Bool.eq_false_iff, Ne, hmem t ht]
      exact ⟨⟨habove, hother⟩, hadmits⟩

/-! ## Rows of the pages -/

section Rows

variable {store : Store}
variable {scope : ThreadScope}
variable {limit : Nat}

/-- The pages of roots of the scope. -/
abbrev rootPages (store : Store) (scope : ThreadScope) (limit : Nat) : List (List Thread) :=
  Keyset.pagesOf limit (store.roots scope)

theorem isRoot_iff
    {t : Thread} :
    store.isRoot scope t = true ↔ store.admits scope t = true ∧ t.pinned = false ∧
      store.rootPredicate scope t = true := by
  rw [Store.isRoot, Bool.and_eq_true, Bool.and_eq_true, Bool.not_eq_true', and_assoc]

theorem mem_of_mem_rows
    {rows : List Thread}
    (hrows : rows ∈ rootPages store scope limit)
    {r : Thread}
    (hr : r ∈ rows) :
    r ∈ store.threads ∧ store.isRoot scope r = true :=
  Store.mem_roots.1 (Keyset.mem_of_mem_page hrows hr)

/-- A page has what is visible and at or below one of its roots. -/
theorem mem_pageOf
    {rows : List Thread}
    (hrows : rows ∈ rootPages store scope limit)
    {t : Thread} :
    t ∈ (store.pageOf scope limit rows).threads ↔
      t ∈ store.threads ∧ store.admits scope t = true ∧ ∃ r ∈ rows, Above store r t := by
  rw [Store.pageOf, List.mem_append,
    mem_descendantsOf fun r hr => (mem_of_mem_rows hrows hr).1]
  constructor
  · rintro (ht | ⟨hmem, hadmits, _, habove⟩)
    · obtain ⟨hmem, hroot⟩ := mem_of_mem_rows hrows ht
      exact ⟨hmem, (isRoot_iff.1 hroot).1, t, ht, Above.refl store t⟩
    · exact ⟨hmem, hadmits, habove⟩
  · rintro ⟨hmem, hadmits, habove⟩
    by_cases ht : t ∈ rows
    · exact Or.inl ht
    · exact Or.inr ⟨hmem, hadmits, ht, habove⟩

theorem nodup_pageOf
    {rows : List Thread}
    (hrows : rows ∈ rootPages store scope limit) :
    (store.pageOf scope limit rows).threads.Nodup := by
  have hroots : rows.Nodup := by
    have hflat := (store.descending_roots scope).nodup
    rw [← Keyset.flatten_pagesOf limit (store.roots scope)] at hflat
    exact (List.nodup_flatten.1 hflat).1 rows hrows
  have hbelow : (store.descendantsOf (rows.map (·.id)) scope).Nodup := by
    rw [Store.descendantsOf]
    split
    · exact List.nodup_nil
    · exact (Keyset.descending_insertionSort (store.picked_nodup _)).nodup
  refine List.nodup_append.2 ⟨hroots, hbelow, ?_⟩
  rintro t ht _ ht' rfl
  exact ((mem_descendantsOf fun r hr => (mem_of_mem_rows hrows hr).1).1 ht').2.2.1 ht

theorem mem_pinned
    {t : Thread} :
    t ∈ store.listPinnedThreads scope ↔
      t ∈ store.threads ∧ store.admits scope t = true ∧ t.pinned = true := by
  rw [Store.listPinnedThreads, Store.mem_newestFirst, List.mem_filter, Bool.and_eq_true]

theorem nodup_pinned : (store.listPinnedThreads scope).Nodup :=
  (Keyset.descending_insertionSort (store.picked_nodup _)).nodup

theorem threads_nodup (store : Store) : store.threads.Nodup :=
  List.Nodup.of_map _ store.thread_ids

end Rows

/-! ## The tiling -/

/-- What the pages of a scope and its pinned conversations should be. -/
structure Tiling (store : Store) (scope : ThreadScope) (pages : List ThreadsPage) : Prop where
  /-- Every visible conversation once, and nothing else. -/
  once : (pages.flatMap (·.threads) ++ store.listPinnedThreads scope).Perm
    (store.threads.filter (store.admits scope))
  /-- What lies below a root, the nearest or another, is on its page. -/
  together : ∀ t ∈ store.threads, store.admits scope t = true → t.pinned = false →
    ∀ r ∈ store.roots scope, Above store r t →
      ∃ page ∈ pages, r ∈ page.threads ∧ t ∈ page.threads
  ordered : Keyset.Descending Thread.key
    ((pages.flatMap (·.threads)).filter (store.isRoot scope))
  counted : ∀ page ∈ pages, page.totalRoots =
    ((pages.flatMap (·.threads)).filter (store.isRoot scope)).length

/--
In the lineage of what is not deleted, no visible pinned conversation lies below a root;
every other visible one is a root or lies below one, and the roots above it, itself
included, are on one page of roots.
-/
structure CarriedOnce (store : Store) (scope : ThreadScope) (limit : Nat) : Prop where
  pinned : ∀ t ∈ store.threads, store.admits scope t = true → t.pinned = true →
    ∀ r ∈ store.roots scope, ¬ Above store r t
  unpinned : ∀ t ∈ store.threads, store.admits scope t = true → t.pinned = false →
    ∃ r ∈ store.roots scope, Above store r t
  onePage : ∀ t ∈ store.threads, store.admits scope t = true →
    ∀ r ∈ store.roots scope, ∀ r' ∈ store.roots scope, Above store r t → Above store r' t →
      ∃ rows ∈ rootPages store scope limit, r ∈ rows ∧ r' ∈ rows

section Tiling

variable {store : Store}
variable {scope : ThreadScope}
variable {limit : Nat}

/-- Pages of which no two have a conversation in common. -/
theorem pairwise_disjoint_iff :
    (rootPages store scope limit).Pairwise (fun rows rows' => List.Disjoint
        (store.pageOf scope limit rows).threads (store.pageOf scope limit rows').threads) ↔
      ∀ t ∈ store.threads, store.admits scope t = true →
        ∀ r ∈ store.roots scope, ∀ r' ∈ store.roots scope, Above store r t → Above store r' t →
          ∃ rows ∈ rootPages store scope limit, r ∈ rows ∧ r' ∈ rows := by
  have hroots := (store.descending_roots scope).nodup
  constructor
  · intro h t ht hadmits r hr r' hr' habove habove'
    obtain ⟨rows, hrows, hmem⟩ := @Keyset.exists_page_of_mem _ limit _ _ hr
    obtain ⟨rows', hrows', hmem'⟩ := @Keyset.exists_page_of_mem _ limit _ _ hr'
    by_cases heq : rows = rows'
    · exact ⟨rows, hrows, hmem, heq ▸ hmem'⟩
    · have : Std.Symm (fun rows rows' => List.Disjoint
          (store.pageOf scope limit rows).threads (store.pageOf scope limit rows').threads) :=
        ⟨fun _ _ hd _ ha hb => hd hb ha⟩
      exact (h.forall hrows hrows' heq ((mem_pageOf hrows).2 ⟨ht, hadmits, r, hmem, habove⟩)
        ((mem_pageOf hrows').2 ⟨ht, hadmits, r', hmem', habove'⟩)).elim
  · intro h
    refine (Keyset.pairwise_disjoint_pagesOf limit hroots).imp_of_mem ?_
    intro rows rows' hrows hrows' hdisjoint t ht ht'
    obtain ⟨hmem, hadmits, r, hr, habove⟩ := (mem_pageOf hrows).1 ht
    obtain ⟨_, _, r', hr', habove'⟩ := (mem_pageOf hrows').1 ht'
    obtain ⟨shared, hshared, hin, hin'⟩ := h t hmem hadmits r (Keyset.mem_of_mem_page hrows hr)
      r' (Keyset.mem_of_mem_page hrows' hr') habove habove'
    have hfirst := Keyset.eq_of_mem_pagesOf hroots hrows hshared hr hin
    have hsecond := Keyset.eq_of_mem_pagesOf hroots hrows' hshared hr' hin'
    rw [hfirst] at hdisjoint
    rw [hsecond] at hdisjoint
    exact hdisjoint hin hin

theorem mem_pages
    {t : Thread} :
    t ∈ ((rootPages store scope limit).map (store.pageOf scope limit)).flatMap (·.threads) ↔
      t ∈ store.threads ∧ store.admits scope t = true ∧
        ∃ r ∈ store.roots scope, Above store r t := by
  rw [List.mem_flatMap]
  constructor
  · rintro ⟨page, hpage, ht⟩
    obtain ⟨rows, hrows, rfl⟩ := List.mem_map.1 hpage
    obtain ⟨hmem, hadmits, r, hr, habove⟩ := (mem_pageOf hrows).1 ht
    exact ⟨hmem, hadmits, r, Keyset.mem_of_mem_page hrows hr, habove⟩
  · rintro ⟨hmem, hadmits, r, hr, habove⟩
    obtain ⟨rows, hrows, hin⟩ := @Keyset.exists_page_of_mem _ limit _ _ hr
    exact ⟨_, List.mem_map.2 ⟨rows, hrows, rfl⟩,
      (mem_pageOf hrows).2 ⟨hmem, hadmits, r, hin, habove⟩⟩

/-- Every conversation arrives once exactly if it is carried once. -/
theorem once_iff :
    (((rootPages store scope limit).map (store.pageOf scope limit)).flatMap (·.threads) ++
        store.listPinnedThreads scope).Perm (store.threads.filter (store.admits scope)) ↔
      CarriedOnce store scope limit := by
  have hvisible : (store.threads.filter (store.admits scope)).Nodup :=
    (threads_nodup store).filter _
  constructor
  · intro h
    obtain ⟨hpages, _, hcross⟩ := List.nodup_append.1 (h.nodup_iff.2 hvisible)
    rw [List.flatMap_map, List.nodup_flatMap] at hpages
    refine ⟨?_, ?_, pairwise_disjoint_iff.1 hpages.2⟩
    · intro t ht hadmits hpinned r hr habove
      exact hcross t (mem_pages.2 ⟨ht, hadmits, r, hr, habove⟩) t
        (mem_pinned.2 ⟨ht, hadmits, hpinned⟩) rfl
    · intro t ht hadmits hpinned
      have hmem := h.mem_iff.2 (List.mem_filter.2 ⟨ht, hadmits⟩)
      rcases List.mem_append.1 hmem with hpage | hpin
      · exact (mem_pages.1 hpage).2.2
      · rw [(mem_pinned.1 hpin).2.2] at hpinned
        cases hpinned
  · intro h
    have hnodup : (((rootPages store scope limit).map (store.pageOf scope limit)).flatMap
        (·.threads) ++ store.listPinnedThreads scope).Nodup := by
      refine List.nodup_append.2 ⟨?_, nodup_pinned, ?_⟩
      · rw [List.flatMap_map, List.nodup_flatMap]
        exact ⟨fun rows hrows => nodup_pageOf hrows, pairwise_disjoint_iff.2 h.onePage⟩
      · rintro t ht _ ht' rfl
        obtain ⟨hmem, hadmits, r, hr, habove⟩ := mem_pages.1 ht
        exact h.pinned t hmem hadmits (mem_pinned.1 ht').2.2 r hr habove
    refine (List.perm_ext_iff_of_nodup hnodup hvisible).2 fun t => ?_
    rw [List.mem_append, mem_pages, mem_pinned, List.mem_filter]
    constructor
    · rintro (⟨hmem, hadmits, _⟩ | ⟨hmem, hadmits, _⟩)
      · exact ⟨hmem, hadmits⟩
      · exact ⟨hmem, hadmits⟩
    · rintro ⟨hmem, hadmits⟩
      cases hpinned : t.pinned with
      | true => exact Or.inr ⟨hmem, hadmits, rfl⟩
      | false => exact Or.inl ⟨hmem, hadmits, h.unpinned t hmem hadmits hpinned⟩

/-- On a page of conversations carried once, the roots are those it is a page of. -/
theorem filter_isRoot_pageOf
    (h : CarriedOnce store scope limit)
    {rows : List Thread}
    (hrows : rows ∈ rootPages store scope limit) :
    (store.pageOf scope limit rows).threads.filter (store.isRoot scope) = rows := by
  have hown : rows.filter (store.isRoot scope) = rows :=
    List.filter_eq_self.2 fun r hr => (mem_of_mem_rows hrows hr).2
  have hbelow : (store.descendantsOf (rows.map (·.id)) scope).filter (store.isRoot scope) =
      [] := by
    refine List.filter_eq_nil_iff.2 fun t ht hroot => ?_
    obtain ⟨hmem, hadmits, hother, r, hr, habove⟩ :=
      (mem_descendantsOf fun r hr => (mem_of_mem_rows hrows hr).1).1 ht
    obtain ⟨shared, hshared, hin, hin'⟩ := h.onePage t hmem hadmits t
      (Store.mem_roots.2 ⟨hmem, hroot⟩) r (Keyset.mem_of_mem_page hrows hr)
      (Above.refl store t) habove
    have heq := Keyset.eq_of_mem_pagesOf (store.descending_roots scope).nodup hrows hshared
      hr hin'
    exact hother (heq ▸ hin)
  rw [Store.pageOf, List.filter_append, hown, hbelow, List.append_nil]

theorem filter_isRoot_pages
    (h : CarriedOnce store scope limit) :
    (((rootPages store scope limit).map (store.pageOf scope limit)).flatMap
      (·.threads)).filter (store.isRoot scope) = store.roots scope := by
  have hpages : (rootPages store scope limit).flatMap (fun rows =>
      (store.pageOf scope limit rows).threads.filter (store.isRoot scope)) =
        (rootPages store scope limit).flatMap id :=
    List.flatMap_congr fun rows hrows => filter_isRoot_pageOf h hrows
  rw [List.filter_flatMap, List.flatMap_map]
  exact hpages.trans (List.flatMap_id.trans (Keyset.flatten_pagesOf _ _))

theorem tiling_iff :
    Tiling store scope ((rootPages store scope limit).map (store.pageOf scope limit)) ↔
      CarriedOnce store scope limit := by
  constructor
  · intro h
    exact once_iff.1 h.once
  · intro h
    refine ⟨once_iff.2 h, ?_, ?_, ?_⟩
    · intro t ht hadmits _ r hr habove
      obtain ⟨hmem, hroot⟩ := Store.mem_roots.1 hr
      obtain ⟨rows, hrows, hin⟩ := @Keyset.exists_page_of_mem _ limit _ _ hr
      exact ⟨_, List.mem_map.2 ⟨rows, hrows, rfl⟩,
        (mem_pageOf hrows).2 ⟨hmem, (isRoot_iff.1 hroot).1, r, hin, Above.refl store r⟩,
        (mem_pageOf hrows).2 ⟨ht, hadmits, r, hin, habove⟩⟩
    · rw [filter_isRoot_pages h]
      exact store.descending_roots scope
    · intro page hpage
      obtain ⟨rows, _, rfl⟩ := List.mem_map.1 hpage
      rw [filter_isRoot_pages h, Store.roots, newestFirst,
        (List.perm_insertionSort _ _).length_eq]
      rfl

end Tiling

/-! ## Main result -/

/--
Reading on from the first page ends, and the pages and the pinned conversations tile
the list exactly if every visible conversation is carried once.
-/
theorem pages_tile_iff
    (store : Store)
    (scope : ThreadScope)
    (limit : Int) :
    ∃ pages, (∀ pages', Follows store scope limit none pages' ↔ pages' = pages) ∧
      (Tiling store scope pages ↔ CarriedOnce store scope (pageLimit limit)) :=
  ⟨_, follows_iff store scope limit, tiling_iff⟩

/-- A pinned conversation and a fork of it. -/
def pinnedRoot : Store where
  workspaces := [⟨"ws-1", none⟩]
  threads :=
    [⟨"root", "ws-1", "chat", "active", true, none, none, none, 10, none⟩,
      ⟨"child", "ws-1", "chat", "active", false, none, some "root", none, 20, none⟩]
  workspace_ids := by decide
  thread_ids := by decide
  stamps := by decide

/-- The fork is on no page: its parent is visible, so it is no root, and nobody's page. -/
theorem fork_of_pinned_lost :
    (pinnedRoot.threads.map (·.sessionKey)).Nodup ∧ Digraph.Acyclic pinnedRoot.forks ∧
      ¬ ∃ pages, Follows pinnedRoot .chat 50 none pages ∧ Tiling pinnedRoot .chat pages := by
  have hforks : pinnedRoot.forks = [("root", "child")] := by decide
  refine ⟨by decide, ?_, ?_⟩
  · intro a hwalk
    rw [hforks] at hwalk
    obtain ⟨b, hout, _⟩ := Relation.TransGen.head'_iff.1 hwalk
    obtain ⟨c, _, hin⟩ := Relation.TransGen.tail'_iff.1 hwalk
    have hroot : (a, b) = ("root", "child") := List.mem_singleton.1 hout
    have hchild : (c, a) = ("root", "child") := List.mem_singleton.1 hin
    have heq := (Prod.mk.inj hroot).1.symm.trans (Prod.mk.inj hchild).2
    revert heq
    decide
  · rintro ⟨pages, hfollows, htiling⟩
    rw [(follows_iff _ _ _ _).1 hfollows, tiling_iff] at htiling
    have hroots : pinnedRoot.roots .chat = [] := by decide
    obtain ⟨r, hr, _⟩ := htiling.unpinned
      ⟨"child", "ws-1", "chat", "active", false, none, some "root", none, 20, none⟩
      (by decide) (by decide) rfl
    rw [hroots] at hr
    cases hr

end Threads
end FutureOs
