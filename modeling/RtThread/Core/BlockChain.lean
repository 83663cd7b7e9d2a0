import Mathlib

set_option linter.all false

/-!
# Chains of blocks

Blocks that tile an interval of addresses.  Each block starts with a header that
holds the address of the next and of the previous header, and a closing header
ends the chain; its back link is not maintained.

A memory manager edits such a chain in two ways: it inserts a header inside a
block, and it removes the header between two blocks.  Both edits are stated for
any links that have the new values at the headers concerned and agree with the
old links elsewhere.
-/

namespace RtThread.Core

variable {Address : Type*} [LinearOrder Address]

structure Links (Address : Type*) where
  next : Address → Address
  prev : Address → Address

namespace Links

/-- `after` is the header that follows `block`. -/
def Adjacent (links : Links Address) (last block after : Address) : Prop :=
  links.next block = after ∧ block < after ∧ (after ≠ last → links.prev after = block)

/-- Follow the `next` links until `last`, for at most `fuel` headers. -/
def walk (links : Links Address) (last : Address) : ℕ → Address → List Address
  | 0, _ => []
  | fuel + 1, block =>
    if block = last then [last] else block :: walk links last fuel (links.next block)

/-- The headers met by following the `next` links from `first` to `last`. -/
structure Chain (links : Links Address) (first last : Address) (headers : List Address) :
    Prop where
  head : headers.head? = some first
  getLast : headers.getLast? = some last
  adjacent : headers.IsChain (links.Adjacent last)

variable {links links' : Links Address} {first last block other : Address}
variable {headers before rest : List Address}

omit [LinearOrder Address] in
theorem mem_insert_iff {fresh : Address} :
    other ∈ before ++ block :: fresh :: rest ↔ other = fresh ∨ other ∈ before ++ block :: rest := by
  simp only [List.mem_append, List.mem_cons]
  tauto

omit [LinearOrder Address] in
theorem mem_of_mem_upTo (hother : other ∈ before ++ [block]) :
    other ∈ before ++ block :: rest := by
  rw [← List.singleton_append, ← List.append_assoc]
  exact List.mem_append_left rest hother

omit [LinearOrder Address] in
theorem mem_of_mem_from (hother : other ∈ rest) : other ∈ before ++ block :: rest :=
  List.mem_append_right before (List.mem_cons_of_mem block hother)

theorem sorted_of_isChain (hpart : headers.IsChain (links.Adjacent last)) :
    headers.Pairwise (· < ·) :=
  List.isChain_iff_pairwise.1 (hpart.imp fun _ _ hadjacent => hadjacent.2.1)

namespace Chain

theorem sorted (hchain : links.Chain first last headers) : headers.Pairwise (· < ·) :=
  sorted_of_isChain hchain.adjacent

theorem le_last (hchain : links.Chain first last headers) (hmem : block ∈ headers) :
    block ≤ last := by
  obtain ⟨start, rfl⟩ := List.getLast?_eq_some_iff.1 hchain.getLast
  rcases List.mem_append.1 hmem with hstart | hlast
  · exact ((List.pairwise_append.1 hchain.sorted).2.2 block hstart last (by simp)).le
  · exact (List.mem_singleton.1 hlast).le

/-- A header other than the last one has a successor in the chain. -/
theorem split_next (hchain : links.Chain first last headers) (hmem : block ∈ headers)
    (hlast : block ≠ last) :
    ∃ before rest, headers = before ++ block :: links.next block :: rest := by
  obtain ⟨before, tail, rfl⟩ := List.append_of_mem hmem
  cases tail with
  | nil =>
    have hend := hchain.getLast
    rw [List.getLast?_append_cons, List.getLast?_singleton, Option.some.injEq] at hend
    exact absurd hend hlast
  | cons after rest =>
    have hadjacent := (List.isChain_append_cons_cons.1 hchain.adjacent).2.1
    exact ⟨before, rest, by rw [hadjacent.1]⟩

theorem next_mem (hchain : links.Chain first last headers) (hmem : block ∈ headers)
    (hlast : block ≠ last) : links.next block ∈ headers := by
  obtain ⟨before, rest, hsplit⟩ := hchain.split_next hmem hlast
  rw [hsplit]
  simp

theorem lt_next (hchain : links.Chain first last headers) (hmem : block ∈ headers)
    (hlast : block ≠ last) : block < links.next block := by
  obtain ⟨before, rest, rfl⟩ := hchain.split_next hmem hlast
  exact (List.isChain_append_cons_cons.1 hchain.adjacent).2.1.2.1

theorem next_le (hchain : links.Chain first last headers) (hmem : block ∈ headers)
    (hother : other ∈ headers) (hlt : block < other) : links.next block ≤ other := by
  have hlast : block ≠ last := (hlt.trans_le (hchain.le_last hother)).ne
  obtain ⟨before, rest, rfl⟩ := hchain.split_next hmem hlast
  have hsorted := List.pairwise_append.1 hchain.sorted
  rcases List.mem_append.1 hother with hbefore | hafter
  · exact absurd hlt (hsorted.2.2 other hbefore block (by simp)).asymm
  · rcases List.mem_cons.1 hafter with rfl | hafter
    · exact absurd hlt (lt_irrefl _)
    · rcases List.mem_cons.1 hafter with rfl | hrest
      · exact le_rfl
      · exact ((List.pairwise_cons.1 (List.pairwise_cons.1 hsorted.2.1).2).1 other hrest).le

theorem not_mem_of_inside (hchain : links.Chain first last headers) (hmem : block ∈ headers)
    (hlow : block < other) (hhigh : other < links.next block) : other ∉ headers :=
  fun hother => hhigh.not_ge (hchain.next_le hmem hother hlow)

/-- A chain is what following its links from the first header finds. -/
theorem walk_eq (hchain : links.Chain first last headers) {fuel : ℕ}
    (hfuel : headers.length ≤ fuel) : links.walk last fuel first = headers := by
  induction headers generalizing first fuel with
  | nil => exact absurd hchain.head (by simp)
  | cons head tail ih =>
    obtain rfl : head = first := by simpa using hchain.head
    obtain ⟨fuel, rfl⟩ : ∃ rest, fuel = rest + 1 :=
      ⟨fuel - 1, by simp only [List.length_cons] at hfuel; omega⟩
    cases tail with
    | nil =>
      have hlast : head = last := by simpa using hchain.getLast
      simp [walk, hlast]
    | cons after rest =>
      obtain ⟨hadjacent, htail⟩ := List.isChain_cons_cons.1 hchain.adjacent
      have hne : head ≠ last := by
        have hle : after ≤ last := hchain.le_last (by simp)
        exact (hadjacent.2.1.trans_le hle).ne
      have hrest : links.Chain after last (after :: rest) :=
        ⟨rfl, by simpa using hchain.getLast, htail⟩
      rw [walk, if_neg hne, hadjacent.1, ih hrest (by simpa using hfuel)]

/-- Some of the blocks of a chain of numbers, without the closing header, fit between its
ends. -/
theorem sum_filter_le {links : Links ℕ} {first last : ℕ} {headers : List ℕ} {keep : ℕ → Bool}
    (hchain : links.Chain first last headers) (hlast : keep last = false) :
    ((headers.filter keep).map fun block => links.next block - block).sum ≤ last := by
  have hgeneral : ((headers.filter keep).map fun block => links.next block - block).sum + first ≤
      last := by
    induction headers generalizing first with
    | nil => exact absurd hchain.head (by simp)
    | cons head tail ih =>
      obtain rfl : head = first := by simpa using hchain.head
      cases tail with
      | nil =>
        have hend : head = last := by simpa using hchain.getLast
        simp [hend, hlast]
      | cons after rest =>
        obtain ⟨hadjacent, htail⟩ := List.isChain_cons_cons.1 hchain.adjacent
        have hrest := ih ⟨rfl, by simpa using hchain.getLast, htail⟩
        have hnext := hadjacent.1
        have hlt := hadjacent.2.1
        rw [List.filter_cons]
        split
        · rw [List.map_cons, List.sum_cons, hnext]
          omega
        · omega
  omega

end Chain

theorem isChain_congr (hpart : headers.IsChain (links.Adjacent last))
    (hagree : ∀ block ∈ headers, ∀ after ∈ headers, block < after →
      links'.next block = links.next block ∧ links'.prev after = links.prev after) :
    headers.IsChain (links'.Adjacent last) := by
  apply hpart.imp_of_mem_imp
  intro block after hblock hafter hadjacent
  obtain ⟨hnext, hlt, hprev⟩ := hadjacent
  obtain ⟨hnext', hprev'⟩ := hagree block hblock after hafter hlt
  exact ⟨hnext'.trans hnext, hlt, fun hne => hprev'.trans (hprev hne)⟩

namespace Chain

theorem congr (hchain : links.Chain first last headers)
    (hagree : ∀ block ∈ headers,
      links'.next block = links.next block ∧ links'.prev block = links.prev block) :
    links'.Chain first last headers where
  head := hchain.head
  getLast := hchain.getLast
  adjacent := isChain_congr hchain.adjacent fun block hblock after hafter _ =>
    ⟨(hagree block hblock).1, (hagree after hafter).2⟩

variable {after fresh gone : Address}

/-- The part of a chain up to a block keeps its links under an edit of the forward
link of the block and of the back link of a later header. -/
theorem isChain_upTo (hpart : (before ++ [block]).IsChain (links.Adjacent last))
    (hlt : block < after)
    (hnext : ∀ other ∈ before ++ [block], other ≠ block → links'.next other = links.next other)
    (hprev : ∀ other ∈ before ++ [block], other ≠ after → links'.prev other = links.prev other) :
    (before ++ [block]).IsChain (links'.Adjacent last) := by
  have hsorted := List.pairwise_append.1 (sorted_of_isChain hpart)
  have hbelow : ∀ other ∈ before ++ [block], other ≤ block := by
    intro other hother
    rcases List.mem_append.1 hother with hbefore | hblock
    · exact (hsorted.2.2 other hbefore block (by simp)).le
    · exact (List.mem_singleton.1 hblock).le
  refine isChain_congr hpart fun low hlow high hhigh hlowhigh => ⟨?_, ?_⟩
  · exact hnext low hlow (hlowhigh.trans_le (hbelow high hhigh)).ne
  · exact hprev high hhigh ((hbelow high hhigh).trans_lt hlt).ne

/-- The part of a chain from a header on keeps its links under an edit of the back
link of the header and of the forward link of an earlier block. -/
theorem isChain_from (hpart : (after :: rest).IsChain (links.Adjacent last))
    (hlt : block < after)
    (hnext : ∀ other ∈ after :: rest, other ≠ block → links'.next other = links.next other)
    (hprev : ∀ other ∈ after :: rest, other ≠ after → links'.prev other = links.prev other) :
    (after :: rest).IsChain (links'.Adjacent last) := by
  have habove : ∀ other ∈ after :: rest, after ≤ other := by
    intro other hother
    rcases List.mem_cons.1 hother with rfl | hrest
    · exact le_rfl
    · exact ((List.pairwise_cons.1 (sorted_of_isChain hpart)).1 other hrest).le
  refine isChain_congr hpart fun low hlow high hhigh hlowhigh => ⟨?_, ?_⟩
  · exact hnext low hlow (hlt.trans_le (habove low hlow)).ne'
  · exact hprev high hhigh ((habove low hlow).trans_lt hlowhigh).ne'

theorem insert (hchain : links.Chain first last (before ++ block :: after :: rest))
    (hlow : block < fresh) (hhigh : fresh < after)
    (hblock : links'.next block = fresh) (hfresh : links'.next fresh = after)
    (hback : links'.prev fresh = block) (hafter : after ≠ last → links'.prev after = fresh)
    (hnext : ∀ other, other ≠ block → other ≠ fresh → links'.next other = links.next other)
    (hprev : ∀ other, other ≠ after → other ≠ fresh → links'.prev other = links.prev other) :
    links'.Chain first last (before ++ block :: fresh :: after :: rest) := by
  obtain ⟨hleft, hmiddle, hright⟩ := List.isChain_append_cons_cons.1 hchain.adjacent
  have hfree : fresh ∉ before ++ block :: after :: rest :=
    hchain.not_mem_of_inside (by simp) hlow (hmiddle.1.symm ▸ hhigh)
  have hupTo : (before ++ [block]).IsChain (links'.Adjacent last) := by
    refine isChain_upTo hleft hmiddle.2.1 (fun other hother hne => hnext other hne ?_)
      (fun other hother hne => hprev other hne ?_)
    all_goals
      rintro rfl
      exact hfree (mem_of_mem_upTo hother)
  have hfrom : (after :: rest).IsChain (links'.Adjacent last) := by
    refine isChain_from hright hmiddle.2.1 (fun other hother hne => hnext other hne ?_)
      (fun other hother hne => hprev other hne ?_)
    all_goals
      rintro rfl
      exact hfree (mem_of_mem_from hother)
  have hinner : (block :: fresh :: after :: rest).IsChain (links'.Adjacent last) :=
    .cons_cons ⟨hblock, hlow, fun _ => hback⟩ (.cons_cons ⟨hfresh, hhigh, hafter⟩ hfrom)
  refine ⟨?_, ?_, List.isChain_split.2 ⟨hupTo, hinner⟩⟩
  · have hhead := hchain.head
    cases before <;> simpa using hhead
  · have hend := hchain.getLast
    simpa [List.getLast?_append] using hend

theorem remove (hchain : links.Chain first last (before ++ block :: gone :: after :: rest))
    (hblock : links'.next block = after) (hafter : after ≠ last → links'.prev after = block)
    (hnext : ∀ other, other ≠ block → links'.next other = links.next other)
    (hprev : ∀ other, other ≠ after → links'.prev other = links.prev other) :
    links'.Chain first last (before ++ block :: after :: rest) := by
  obtain ⟨hleft, hfirst, hgone⟩ := List.isChain_append_cons_cons.1 hchain.adjacent
  obtain ⟨hsecond, hright⟩ := List.isChain_cons_cons.1 hgone
  have hlt : block < after := hfirst.2.1.trans hsecond.2.1
  have hupTo : (before ++ [block]).IsChain (links'.Adjacent last) :=
    isChain_upTo hleft hlt (fun other _ => hnext other) (fun other _ => hprev other)
  have hfrom : (after :: rest).IsChain (links'.Adjacent last) :=
    isChain_from hright hlt (fun other _ => hnext other) (fun other _ => hprev other)
  refine ⟨?_, ?_, List.isChain_append_cons_cons.2 ⟨hupTo, ⟨hblock, hlt, hafter⟩, hfrom⟩⟩
  · have hhead := hchain.head
    cases before <;> simpa using hhead
  · have hend := hchain.getLast
    simpa [List.getLast?_append] using hend

end Chain

end Links

end RtThread.Core
