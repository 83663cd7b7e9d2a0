import Mathlib.Data.List.Infix
import Mathlib.Data.List.TakeWhile

set_option linter.all false

/-!
# Separated component paths

A path over an arbitrary alphabet is a list of components, written with a
separator before each of them; the path without components is the separator
alone.  Where components are non-empty and free of the separator, a text that
continues the text of a path at a separator continues its components, so being
an ancestor can be read off the texts.
-/

namespace RtThread.ComponentPath

variable {α : Type*} (sep : α)

/-- Every component written after a separator. -/
def body (components : List (List α)) : List α :=
  components.flatMap (sep :: ·)

/-- The text of a path. -/
def render : List (List α) → List α
  | [] => [sep]
  | components => body sep components

/-- Components that can be told apart in the text. -/
def Clean (components : List (List α)) : Prop :=
  ∀ component ∈ components, component ≠ [] ∧ sep ∉ component

/-- A text that is empty or starts with the separator. -/
def AtBoundary (rest : List α) : Prop :=
  ∀ a ∈ rest.head?, a = sep

variable {sep}

@[simp] theorem body_nil : body sep [] = [] := rfl

@[simp] theorem body_cons (component : List α) (components : List (List α)) :
    body sep (component :: components) = sep :: (component ++ body sep components) := rfl

theorem body_append (front tail : List (List α)) :
    body sep (front ++ tail) = body sep front ++ body sep tail :=
  List.flatMap_append

@[simp] theorem render_nil : render sep ([] : List (List α)) = [sep] := rfl

variable {components : List (List α)}

theorem render_of_ne_nil (hne : components ≠ []) : render sep components = body sep components := by
  cases components with
  | nil => exact absurd rfl hne
  | cons component components => rfl

theorem render_head? (components : List (List α)) :
    (render sep components).head? = some sep := by
  cases components <;> rfl

theorem Clean.of_cons {component : List α} (h : Clean sep (component :: components)) :
    Clean sep components :=
  fun other hother => h other (List.mem_cons_of_mem _ hother)

theorem Clean.of_prefix {front : List (List α)} (h : Clean sep components)
    (hfront : front <+: components) : Clean sep front :=
  fun component hcomponent => h component (hfront.subset hcomponent)

theorem atBoundary_nil : AtBoundary sep ([] : List α) := nofun

variable {rest : List α}

theorem atBoundary_cons {a : α} : AtBoundary sep (a :: rest) ↔ a = sep := by
  simp [AtBoundary]

theorem atBoundary_body (components : List (List α)) : AtBoundary sep (body sep components) := by
  cases components with
  | nil => exact atBoundary_nil
  | cons component components => exact atBoundary_cons.2 rfl

theorem AtBoundary.body_append (hrest : AtBoundary sep rest) (components : List (List α)) :
    AtBoundary sep (body sep components ++ rest) := by
  cases components with
  | nil => exact hrest
  | cons component components => exact atBoundary_cons.2 rfl

/-- The first separator ends a component that has none. -/
theorem component_append_inj {left right leftRest rightRest : List α}
    (hleft : sep ∉ left) (hright : sep ∉ right)
    (hleftRest : AtBoundary sep leftRest) (hrightRest : AtBoundary sep rightRest)
    (heq : left ++ leftRest = right ++ rightRest) :
    left = right ∧ leftRest = rightRest := by
  induction left generalizing right with
  | nil =>
    cases right with
    | nil => exact ⟨rfl, heq⟩
    | cons b right =>
      rw [List.nil_append, List.cons_append] at heq
      rw [heq, atBoundary_cons] at hleftRest
      exact absurd (List.mem_cons.2 (Or.inl hleftRest.symm)) hright
  | cons a left ih =>
    cases right with
    | nil =>
      rw [List.nil_append, List.cons_append] at heq
      rw [← heq, atBoundary_cons] at hrightRest
      exact absurd (List.mem_cons.2 (Or.inl hrightRest.symm)) hleft
    | cons b right =>
      rw [List.cons_append, List.cons_append, List.cons.injEq] at heq
      obtain ⟨rfl, htail⟩ := heq
      obtain ⟨rfl, hrests⟩ := ih (fun h => hleft (List.mem_cons_of_mem _ h))
        (fun h => hright (List.mem_cons_of_mem _ h)) htail
      exact ⟨rfl, hrests⟩

/-- A text that continues the text of a path at a boundary is the text of a
path with more components. -/
theorem body_append_eq_body_iff {front : List (List α)} (hfront : Clean sep front)
    (hcomponents : Clean sep components) (hrest : AtBoundary sep rest) :
    body sep front ++ rest = body sep components ↔
      ∃ tail, components = front ++ tail ∧ rest = body sep tail := by
  constructor
  · intro heq
    induction front generalizing components with
    | nil => exact ⟨components, rfl, heq⟩
    | cons first front ih =>
      cases components with
      | nil => simp at heq
      | cons second components =>
        simp only [body_cons, List.cons_append, List.append_assoc, List.cons.injEq,
          true_and] at heq
        obtain ⟨rfl, htail⟩ := component_append_inj
          (hfront first List.mem_cons_self).2 (hcomponents second List.mem_cons_self).2
          (hrest.body_append front) (atBoundary_body components) heq
        obtain ⟨tail, rfl, hrestTail⟩ := ih hfront.of_cons hcomponents.of_cons htail
        exact ⟨tail, rfl, hrestTail⟩
  · rintro ⟨tail, rfl, rfl⟩
    exact (body_append front tail).symm

/-- A path with components is longer than the separator alone. -/
theorem one_lt_length_body (hclean : Clean sep components) (hne : components ≠ []) :
    1 < (body sep components).length := by
  cases components with
  | nil => exact absurd rfl hne
  | cons component components =>
    have hpos := List.length_pos_iff.2 (hclean component List.mem_cons_self).1
    simp only [body_cons, List.length_cons, List.length_append]
    omega

/-- Among the ancestors of one path, the length of the text tells them apart. -/
theorem eq_of_prefix_of_length_render_eq {left right : List (List α)}
    (hclean : Clean sep components) (hleft : left <+: components) (hright : right <+: components)
    (hlength : (render sep left).length = (render sep right).length) : left = right := by
  wlog hfront : left <+: right generalizing left right with hswap
  · have hother := (List.prefix_or_prefix_of_prefix hleft hright).resolve_left hfront
    exact (hswap hright hleft hlength.symm hother).symm
  · obtain ⟨tail, rfl⟩ := hfront
    have htail : Clean sep (left ++ tail) := hclean.of_prefix hright
    by_contra hne
    have hnonempty : tail ≠ [] := fun hnil => hne (by simp [hnil])
    have hlonger := one_lt_length_body
      (fun component hmem => htail component (List.mem_append_right _ hmem)) hnonempty
    rw [render_of_ne_nil (by simp [hnonempty] : left ++ tail ≠ []), body_append,
      List.length_append] at hlength
    cases left with
    | nil =>
      simp only [render_nil, List.length_singleton, body_nil, List.length_nil] at hlength
      omega
    | cons component left =>
      rw [render_of_ne_nil (List.cons_ne_nil _ _)] at hlength
      omega

theorem render_injective_of_clean {left right : List (List α)}
    (hleft : Clean sep left) (hright : Clean sep right)
    (heq : render sep left = render sep right) : left = right := by
  by_cases hl : left = []
  · by_contra hne
    have hr : right ≠ [] := fun h => hne (hl.trans h.symm)
    have hlonger := one_lt_length_body hright hr
    rw [hl, render_nil, render_of_ne_nil hr] at heq
    rw [← heq] at hlonger
    simp at hlonger
  · by_cases hr : right = []
    · have hlonger := one_lt_length_body hleft hl
      rw [hr, render_nil, render_of_ne_nil hl] at heq
      rw [heq] at hlonger
      simp at hlonger
    · rw [render_of_ne_nil hl, render_of_ne_nil hr, ← List.append_nil (body sep left)] at heq
      obtain ⟨tail, rfl, htail⟩ :=
        (body_append_eq_body_iff hleft hright atBoundary_nil).1 heq
      cases tail with
      | nil => exact (List.append_nil left).symm
      | cons component tail => simp at htail

/-- A path is an ancestor of another exactly when its text is a prefix that
ends at a boundary, the separator alone being an ancestor of every path. -/
theorem prefix_iff_render {ancestor : List (List α)} (hancestor : Clean sep ancestor)
    (hcomponents : Clean sep components) : ancestor <+: components ↔
      render sep ancestor <+: render sep components ∧
        (ancestor = [] ∨
          AtBoundary sep ((render sep components).drop (render sep ancestor).length)) := by
  cases ancestor with
  | nil =>
    refine ⟨fun _ => ⟨?_, Or.inl rfl⟩, fun _ => List.nil_prefix⟩
    have hhead : (render sep components).head? = some sep := render_head? components
    obtain ⟨rest, hrest⟩ := List.head?_eq_some_iff.1 hhead
    exact ⟨rest, hrest.symm⟩
  | cons first ancestor =>
    have hne : first :: ancestor ≠ [] := List.cons_ne_nil _ _
    rw [render_of_ne_nil hne]
    cases components with
    | nil =>
      have hlonger := one_lt_length_body hancestor hne
      refine ⟨fun h => absurd (List.prefix_nil.1 h) hne, fun h => ?_⟩
      have hshort := h.1.length_le
      simp only [render_nil, List.length_singleton] at hshort
      omega
    | cons second components =>
      rw [render_of_ne_nil (List.cons_ne_nil _ _)]
      constructor
      · rintro ⟨tail, htail⟩
        rw [← htail, body_append, List.drop_left]
        exact ⟨List.prefix_append _ _, Or.inr (atBoundary_body tail)⟩
      · rintro ⟨⟨rest, hrest⟩, hnil | hboundary⟩
        · exact absurd hnil hne
        · rw [← hrest, List.drop_left] at hboundary
          obtain ⟨tail, htail, -⟩ :=
            (body_append_eq_body_iff hancestor hcomponents hboundary).1 hrest
          exact ⟨tail, htail.symm⟩

end RtThread.ComponentPath
