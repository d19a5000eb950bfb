import FutureOs.Lib.Fallible
import Mathlib.Data.List.Forall2
import Mathlib.Order.Basic
import Mathlib.Order.Lattice
import Mathlib.Tactic.Common

/-!
# Reading a list in pages

Entries in the order of their cursors are read in pages, each call from the cursor of the
last item of the page before.  Where every call answers with the items of some entries
after its cursor, in order and at least one if there are any (`Answers`), a run of calls
delivers every entry once, in order (`delivers_of_answers`), whatever it is that ends a
page.
-/

namespace FutureOs

universe u v w

section CursorPages

variable {Entry : Type u}
variable {Item : Type v}
variable {Cursor : Type w}
variable [LinearOrder Cursor]
variable (place : Entry → Cursor)
variable (mark : Item → Cursor)

/-- The entries past a cursor. -/
def entriesAfter (entries : List Entry) (since : Cursor) : List Entry :=
  entries.filter fun entry => since < place entry

/-- A run of calls, one for each limit. -/
def readPages (call : Cursor → Nat → Except String (List Item)) :
    Cursor → List Nat → Except String (List (List Item))
  | _, [] => pure []
  | since, limit :: limits => do
      let page ← call since limit
      let pages ← readPages call ((page.getLast?.map mark).getD since) limits
      pure (page :: pages)

/--
The pages are the entries from the front: each page is the items of the next entries, and
no page is empty while there are entries left.
-/
inductive Delivered (IsItem : Entry → Item → Prop) :
    List Entry → List (List Item) → Prop
  | nil
      (entries : List Entry) :
      Delivered IsItem entries []
  | page
      {done later : List Entry}
      {items : List Item}
      {pages : List (List Item)}
      (hitems : List.Forall₂ IsItem done items)
      (hprogress : done = [] → later = [])
      (h : Delivered IsItem later pages) :
      Delivered IsItem (done ++ later) (items :: pages)

/-- Every run of calls delivers. -/
def Delivers (IsItem : Entry → Item → Prop) (entries : List Entry) (since : Cursor)
    (call : Cursor → Nat → Except String (List Item)) : Prop :=
  ∀ limits : List Nat, (∀ limit ∈ limits, 1 ≤ limit) →
    ∃ pages, readPages mark call since limits = .ok pages ∧
      Delivered IsItem (entriesAfter place entries since) pages

/-- One call answers with the next entries, and with some if there are any. -/
def Answers (IsItem : Entry → Item → Prop) (entries : List Entry)
    (answer : Except String (List Item)) : Prop :=
  ∃ page done later, answer = .ok page ∧ entries = done ++ later ∧
    List.Forall₂ IsItem done page ∧ (done = [] → later = [])

variable {place mark}

/-- The entries past a later cursor end those past an earlier one. -/
theorem entriesAfter_suffix
    {entries : List Entry}
    (hsorted : entries.Pairwise fun a b => place a < place b)
    {since c : Cursor}
    (h : since ≤ c) :
    entriesAfter place entries c <:+ entriesAfter place entries since := by
  induction entries with
  | nil => exact List.suffix_refl []
  | cons entry entries ih =>
      obtain ⟨hlater, hsorted⟩ := List.pairwise_cons.1 hsorted
      by_cases hpast : c < place entry
      · -- all that follows is past both cursors
        have hall : ∀ other ∈ entry :: entries, c < place other :=
          List.forall_mem_cons.2 ⟨hpast, fun other hother => hpast.trans (hlater other hother)⟩
        have hc : entriesAfter place (entry :: entries) c = entry :: entries :=
          List.filter_eq_self.2 fun other hother => decide_eq_true (hall other hother)
        have hsince : entriesAfter place (entry :: entries) since = entry :: entries :=
          List.filter_eq_self.2 fun other hother =>
            decide_eq_true (h.trans_lt (hall other hother))
        exact ⟨[], hc.trans hsince.symm⟩
      · have hdrop : entriesAfter place (entry :: entries) c = entriesAfter place entries c :=
          List.filter_cons_of_neg (by simpa using hpast)
        rw [hdrop]
        refine (ih hsorted).trans ?_
        unfold entriesAfter
        rw [List.filter_cons]
        split
        · exact List.suffix_cons _ _
        · exact List.suffix_refl _

/-- The entries after one of them. -/
theorem entriesAfter_of_split
    {entries : List Entry}
    (hsorted : entries.Pairwise fun a b => place a < place b)
    {since : Cursor}
    {before later : List Entry}
    {entry : Entry}
    (hsplit : entriesAfter place entries since = before ++ entry :: later) :
    entriesAfter place entries (place entry) = later := by
  have hpast : since < place entry := by
    have hmem : entry ∈ entriesAfter place entries since := by
      rw [hsplit]
      simp
    simpa using (List.mem_filter.1 hmem).2
  have hnested : entriesAfter place entries (place entry) =
      (entriesAfter place entries since).filter fun other => place entry < place other := by
    unfold entriesAfter
    rw [List.filter_filter]
    refine List.filter_congr fun other _ => ?_
    rw [Bool.eq_iff_iff, Bool.and_eq_true]
    simp only [decide_eq_true_eq]
    exact ⟨fun h => ⟨h, hpast.trans h⟩, fun h => h.1⟩
  have hpairs : (before ++ entry :: later).Pairwise fun a b => place a < place b := by
    rw [← hsplit]
    exact hsorted.filter _
  obtain ⟨-, hlater, hbefore⟩ := List.pairwise_append.1 hpairs
  rw [hnested, hsplit, List.filter_append, List.filter_cons_of_neg (by simp)]
  rw [List.filter_eq_nil_iff.2, List.nil_append, List.filter_eq_self.2]
  · exact fun other hother => decide_eq_true ((List.pairwise_cons.1 hlater).1 other hother)
  · intro other hother
    simpa using (hbefore other hother entry List.mem_cons_self).le

/-- Where a page ends the next one goes on. -/
theorem entriesAfter_of_page
    {entries : List Entry}
    (hsorted : entries.Pairwise fun a b => place a < place b)
    {IsItem : Entry → Item → Prop}
    (hmark : ∀ entry item, IsItem entry item → mark item = place entry)
    {since : Cursor}
    {done later : List Entry}
    {page : List Item}
    (hsplit : entriesAfter place entries since = done ++ later)
    (hitems : List.Forall₂ IsItem done page) :
    since ≤ (page.getLast?.map mark).getD since ∧
      entriesAfter place entries ((page.getLast?.map mark).getD since) = later := by
  rcases List.eq_nil_or_concat done with rfl | ⟨before, entry, rfl⟩
  · obtain rfl := List.forall₂_nil_left_iff.1 hitems
    exact ⟨le_refl since, hsplit⟩
  · have hreversed := List.rel_reverse hitems
    rw [List.concat_eq_append, List.reverse_append, List.reverse_singleton,
      List.singleton_append, List.forall₂_cons_left_iff] at hreversed
    obtain ⟨item, rest, hitem, -, hpage⟩ := hreversed
    have hlast : page.getLast? = some item := by
      rw [← List.head?_reverse, hpage]
      rfl
    rw [hlast, Option.map_some, Option.getD_some, hmark entry item hitem]
    have hmem : entry ∈ entriesAfter place entries since := by
      rw [hsplit]
      simp
    exact ⟨(by simpa using (List.mem_filter.1 hmem).2 : since < place entry).le,
      entriesAfter_of_split hsorted (by rw [hsplit, List.concat_eq_append, List.append_assoc]; rfl)⟩

/-- Calls that answer deliver, whatever the limits. -/
theorem delivers_of_answers
    {entries : List Entry}
    (hsorted : entries.Pairwise fun a b => place a < place b)
    {IsItem : Entry → Item → Prop}
    (hmark : ∀ entry item, IsItem entry item → mark item = place entry)
    {call : Cursor → Nat → Except String (List Item)}
    {since : Cursor}
    (hanswers : ∀ c, since ≤ c → ∀ limit, 1 ≤ limit →
      Answers IsItem (entriesAfter place entries c) (call c limit)) :
    Delivers place mark IsItem entries since call := by
  intro limits hlimits
  induction limits generalizing since with
  | nil => exact ⟨[], rfl, .nil _⟩
  | cons limit limits ih =>
      obtain ⟨hlimit, hlimits⟩ := List.forall_mem_cons.1 hlimits
      obtain ⟨page, done, later, hpage, hsplit, hitems, hprogress⟩ :=
        hanswers since (le_refl since) limit hlimit
      obtain ⟨hnext, hlater⟩ := entriesAfter_of_page hsorted hmark hsplit hitems
      obtain ⟨pages, hpages, hdelivered⟩ := ih (fun c hc => hanswers c (hnext.trans hc)) hlimits
      refine ⟨page :: pages, ?_, ?_⟩
      · rw [readPages, hpage, except_ok_bind, hpages]
        rfl
      · rw [hsplit]
        rw [hlater] at hdelivered
        exact .page hitems hprogress hdelivered

theorem delivered_cons_iff
    {IsItem : Entry → Item → Prop}
    {entries : List Entry}
    {page : List Item}
    {pages : List (List Item)} :
    Delivered IsItem entries (page :: pages) ↔
      ∃ done later, entries = done ++ later ∧ List.Forall₂ IsItem done page ∧
        (done = [] → later = []) ∧ Delivered IsItem later pages := by
  constructor
  · intro h
    cases h with
    | @page done later _ _ hitems hprogress h => exact ⟨done, later, rfl, hitems, hprogress, h⟩
  · rintro ⟨done, later, rfl, hitems, hprogress, h⟩
    exact .page hitems hprogress h

/-- Where calls deliver, each of them answers, and the calls after it deliver. -/
theorem Delivers.step
    {entries : List Entry}
    (hsorted : entries.Pairwise fun a b => place a < place b)
    {IsItem : Entry → Item → Prop}
    (hmark : ∀ entry item, IsItem entry item → mark item = place entry)
    {call : Cursor → Nat → Except String (List Item)}
    {since : Cursor}
    (h : Delivers place mark IsItem entries since call)
    {limit : Nat}
    (hlimit : 1 ≤ limit) :
    ∃ page done later, call since limit = .ok page ∧
      entriesAfter place entries since = done ++ later ∧
      List.Forall₂ IsItem done page ∧ (done = [] → later = []) ∧
      ∃ next, since ≤ next ∧ entriesAfter place entries next = later ∧
        Delivers place mark IsItem entries next call := by
  have hall : ∀ limits : List Nat, (∀ limit ∈ limits, 1 ≤ limit) →
      ∃ page pages, call since limit = .ok page ∧
        readPages mark call ((page.getLast?.map mark).getD since) limits = .ok pages ∧
        Delivered IsItem (entriesAfter place entries since) (page :: pages) := by
    intro limits hlimits
    obtain ⟨found, hread, hdelivered⟩ := h (limit :: limits)
      (List.forall_mem_cons.2 ⟨hlimit, hlimits⟩)
    obtain ⟨page, hpage, hread⟩ := bind_eq_ok.1 hread
    obtain ⟨pages, hpages, hread⟩ := bind_eq_ok.1 hread
    cases hread
    exact ⟨page, pages, hpage, hpages, hdelivered⟩
  obtain ⟨page, _, hpage, -, hdelivered⟩ := hall [] nofun
  obtain ⟨done, later, hsplit, hitems, hprogress, -⟩ := delivered_cons_iff.1 hdelivered
  obtain ⟨hnext, hlater⟩ := entriesAfter_of_page hsorted hmark hsplit hitems
  refine ⟨page, done, later, hpage, hsplit, hitems, hprogress, _, hnext, hlater, ?_⟩
  intro limits hlimits
  obtain ⟨page', pages, hpage', hpages, hdelivered'⟩ := hall limits hlimits
  obtain rfl : page = page' := Except.ok.inj (hpage.symm.trans hpage')
  obtain ⟨done', later', hsplit', hitems', -, hrest⟩ := delivered_cons_iff.1 hdelivered'
  refine ⟨pages, hpages, ?_⟩
  -- the same page is the items of as many entries
  have hlength : done.length = done'.length := hitems.length_eq.trans hitems'.length_eq.symm
  obtain ⟨-, rfl⟩ := List.append_inj (hsplit.symm.trans hsplit') hlength
  rw [hlater]
  exact hrest

/-- Calls of one entry at a time come to every entry. -/
theorem Delivers.reaches
    {entries : List Entry}
    (hsorted : entries.Pairwise fun a b => place a < place b)
    {IsItem : Entry → Item → Prop}
    (hmark : ∀ entry item, IsItem entry item → mark item = place entry)
    {call : Cursor → Nat → Except String (List Item)}
    (hone : ∀ c page, call c 1 = .ok page → page.length ≤ 1)
    {since : Cursor}
    (h : Delivers place mark IsItem entries since call)
    {before later : List Entry}
    {entry : Entry}
    (hsplit : entriesAfter place entries since = before ++ entry :: later) :
    ∃ c, since ≤ c ∧ entriesAfter place entries c = entry :: later ∧
      Delivers place mark IsItem entries c call := by
  induction before generalizing since with
  | nil => exact ⟨since, le_refl since, hsplit, h⟩
  | cons first before ih =>
      obtain ⟨page, done, rest, hpage, hsplit', hitems, hprogress, next, hnext, hafter, hdelivers⟩ :=
        h.step hsorted hmark (Nat.le_refl 1)
      have hlength := hitems.length_eq.trans_le (hone since page hpage)
      rw [hsplit', List.cons_append] at hsplit
      -- the page is the first entry alone
      cases done with
      | nil =>
          rw [hprogress rfl] at hsplit
          cases hsplit
      | cons head done =>
          have hnil : done = [] := List.eq_nil_of_length_eq_zero (by simpa using hlength)
          subst hnil
          rw [List.singleton_append, List.cons.injEq] at hsplit
          obtain ⟨c, hc, hentry, hcall⟩ := ih hdelivers (hafter.trans hsplit.2)
          exact ⟨c, hnext.trans hc, hentry, hcall⟩

end CursorPages

end FutureOs
