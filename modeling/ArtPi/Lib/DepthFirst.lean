import Mathlib.Data.Finset.Card
import Mathlib.Logic.Relation

set_option autoImplicit false

/-! # Depth-first order

A node is put into the order behind the nodes that it needs. A visit goes down to those first, and passes over what is
in the order already; it does not end below a node that needs itself. `depth` is how deep the visits may be in one
another. -/

namespace ArtPi.DepthFirst

open Relation

variable {α : Type} (next : α → List α)

/-- `a` needs `b`. -/
def Needs (a b : α) : Prop := b ∈ next a

/-! ## Orders -/

/-- Every node is behind what it needs. -/
inductive Ordered : List α → Prop where
  | nil : Ordered []
  | concat {order : List α} {a : α} (hinit : Ordered order) (hnew : a ∉ order) (hneeds : ∀ b, Needs next a b → b ∈ order) :
      Ordered (order ++ [a])

variable {next} {order order' : List α} {a b : α} {depth : Nat}

theorem Ordered.nodup (h : Ordered next order) : order.Nodup := by
  induction h with
  | nil => exact List.nodup_nil
  | concat _ hnew _ ih => exact List.nodup_append.2 ⟨ih, List.nodup_singleton _, fun x hx y hy hxy =>
    hnew (List.mem_singleton.1 hy ▸ hxy ▸ hx)⟩

theorem Ordered.ahead (h : Ordered next order) {pre post : List α} (hsplit : order = pre ++ a :: post)
    (hb : Needs next a b) : b ∈ pre := by
  induction h generalizing post with
  | nil => exact absurd hsplit (by simp)
  | @concat init c _ hnew hneeds ih =>
    rcases List.eq_nil_or_concat post with rfl | ⟨post, d, rfl⟩
    · obtain ⟨rfl, hac⟩ := List.append_inj' hsplit rfl
      obtain rfl := (List.cons.inj hac).1
      exact hneeds b hb
    · have hlast : init ++ [c] = (pre ++ a :: post) ++ [d] := by simpa using hsplit
      exact ih (List.append_inj' hlast rfl).1

theorem Ordered.acc (h : Ordered next order) (ha : a ∈ order) : Acc (fun b a => Needs next a b) a := by
  induction h generalizing a with
  | nil => exact absurd ha List.not_mem_nil
  | concat _ _ hneeds ih =>
    rcases List.mem_append.1 ha with ha | ha
    · exact ih ha
    · obtain rfl := List.mem_singleton.1 ha
      exact .intro _ fun b hb => ih (hneeds b hb)

theorem not_transGen_of_acc (h : Acc (fun b a => Needs next a b) a) : ¬TransGen (Needs next) a a := by
  induction h with
  | intro a _ ih =>
    intro hcycle
    obtain ⟨b, hab, hba⟩ := TransGen.head'_iff.1 hcycle
    exact ih b hab (TransGen.tail' hba hab)

/-! ## Visits -/

/-- What visits of some nodes make of an order. -/
structure Visited (next : α → List α) (nodes : List α) (order order' : List α) : Prop where
  ordered : Ordered next order'
  keeps : order ⊆ order'
  visits : nodes ⊆ order'
  reached : ∀ b ∈ order', b ∈ order ∨ ∃ a ∈ nodes, ReflTransGen (Needs next) a b

theorem visited_foldlM {f : List α → α → Option (List α)} {nodes : List α}
    (hstep : ∀ a ∈ nodes, ∀ order order', Ordered next order → f order a = some order' → Visited next [a] order order')
    (h : Ordered next order) (hfold : nodes.foldlM f order = some order') : Visited next nodes order order' := by
  induction nodes generalizing order with
  | nil =>
    obtain rfl := Option.some.inj hfold
    exact ⟨h, List.Subset.refl _, List.nil_subset _, fun b hb => .inl hb⟩
  | cons a nodes ih =>
    rw [List.foldlM_cons, Option.bind_eq_bind, Option.bind_eq_some_iff] at hfold
    obtain ⟨mid, hmid, hrest⟩ := hfold
    have hhead := hstep a List.mem_cons_self order mid h hmid
    have htail := ih (fun b hb => hstep b (List.mem_cons_of_mem a hb)) hhead.ordered hrest
    refine ⟨htail.ordered, List.Subset.trans hhead.keeps htail.keeps, List.cons_subset.2
      ⟨htail.keeps (hhead.visits List.mem_cons_self), htail.visits⟩, fun b hb => ?_⟩
    rcases htail.reached b hb with hb | ⟨c, hc, hcb⟩
    · rcases hhead.reached b hb with hb | ⟨c, hc, hcb⟩
      · exact .inl hb
      · exact .inr ⟨a, List.mem_cons_self, List.mem_singleton.1 hc ▸ hcb⟩
    · exact .inr ⟨c, List.mem_cons_of_mem a hc, hcb⟩

theorem foldlM_isSome {β : Type} {f : β → α → Option β} {nodes : List α} (h : ∀ a ∈ nodes, ∀ b, ∃ b', f b a = some b')
    (b : β) : ∃ b', nodes.foldlM f b = some b' := by
  induction nodes generalizing b with
  | nil => exact ⟨b, rfl⟩
  | cons a nodes ih =>
    obtain ⟨mid, hmid⟩ := h a List.mem_cons_self b
    obtain ⟨b', hb'⟩ := ih (fun c hc => h c (List.mem_cons_of_mem a hc)) mid
    exact ⟨b', by rw [List.foldlM_cons, hmid]; exact hb'⟩

variable (next) [DecidableEq α]

def visit : Nat → α → List α → Option (List α)
  | 0, _, _ => none
  | depth + 1, a, order =>
    if a ∈ order then some order
    else ((next a).foldlM (fun order b => visit depth b order) order).map (· ++ [a])

def visitAll (depth : Nat) (nodes : List α) (order : List α) : Option (List α) :=
  nodes.foldlM (fun order a => visit next depth a order) order

variable {next}

/-- A visit that ends keeps the order, and does not put a node in twice. -/
theorem visited_visit (h : Ordered next order) (hvisit : visit next depth a order = some order') :
    Visited next [a] order order' := by
  induction depth generalizing a order order' with
  | zero => exact absurd hvisit (by simp [visit])
  | succ depth ih =>
    rw [visit] at hvisit
    split at hvisit
    · next ha =>
        obtain rfl := Option.some.inj hvisit
        exact ⟨h, List.Subset.refl _, List.cons_subset.2 ⟨ha, List.nil_subset _⟩, fun b hb => .inl hb⟩
    · next ha =>
        obtain ⟨below, hbelow, rfl⟩ := Option.map_eq_some_iff.1 hvisit
        have hvisited : Visited next (next a) order below :=
          visited_foldlM (fun b _ _ _ => ih) h hbelow
        have hneeds : ∀ b, Needs next a b → b ∈ below := fun b hb => hvisited.visits hb
        -- a node that came in below itself would need itself
        have hnew : a ∉ below := by
          intro hin
          rcases hvisited.reached a hin with hin | ⟨b, hab, hba⟩
          · exact ha hin
          · exact not_transGen_of_acc (.intro a fun b hb => hvisited.ordered.acc (hneeds b hb))
              (TransGen.head' hab hba)
        refine ⟨.concat hvisited.ordered hnew hneeds, List.Subset.trans hvisited.keeps (List.subset_append_left _ _),
          List.cons_subset.2 ⟨by simp, List.nil_subset _⟩, fun b hb => ?_⟩
        rcases List.mem_append.1 hb with hb | hb
        · refine (hvisited.reached b hb).imp_right fun ⟨c, hac, hcb⟩ => ⟨a, List.mem_singleton_self a, ?_⟩
          exact .head hac hcb
        · exact .inr ⟨a, List.mem_singleton_self a, List.mem_singleton.1 hb ▸ .refl⟩

theorem visited_visitAll {nodes : List α} (h : Ordered next order) (hvisit : visitAll next depth nodes order = some order') :
    Visited next nodes order order' :=
  visited_foldlM (fun _ _ _ _ => visited_visit) h hvisit

/-- A visit ends where no node below needs itself, and is no deeper than there are nodes. -/
theorem exists_visit {below : Finset α} (hbelow : ∀ b, ReflTransGen (Needs next) a b → b ∈ below)
    (hacyclic : ∀ b ∈ below, ¬TransGen (Needs next) b b) (hdepth : below.card < depth) (order : List α) :
    ∃ order', visit next depth a order = some order' := by
  induction depth generalizing a below order with
  | zero => exact absurd hdepth (Nat.not_lt_zero _)
  | succ depth ih =>
    have ha : a ∈ below := hbelow a .refl
    rw [visit]
    split
    · exact ⟨order, rfl⟩
    · have hnext : ∀ b ∈ next a, ∀ order, ∃ order', visit next depth b order = some order' := by
        intro b hab order
        have hless : ∀ c, ReflTransGen (Needs next) b c → c ∈ below.erase a := by
          intro c hbc
          refine Finset.mem_erase.2 ⟨?_, hbelow c (.head hab hbc)⟩
          rintro rfl
          exact hacyclic _ ha (TransGen.head' hab hbc)
        refine ih hless (fun c hc => hacyclic c (Finset.mem_of_mem_erase hc)) ?_ order
        have := Finset.card_erase_lt_of_mem ha
        omega
      obtain ⟨order', horder'⟩ := foldlM_isSome hnext order
      exact ⟨order' ++ [a], by rw [horder']; rfl⟩

/-- The visits of all nodes end if no node needs itself, and only then. -/
theorem exists_visitAll_iff {nodes : List α} (hclosed : ∀ a ∈ nodes, ∀ b, Needs next a b → b ∈ nodes)
    (hdepth : nodes.length < depth) :
    (∃ order, visitAll next depth nodes [] = some order) ↔ ∀ a ∈ nodes, ¬TransGen (Needs next) a a := by
  constructor
  · rintro ⟨order, hvisit⟩ a ha
    have hvisited := visited_visitAll .nil hvisit
    exact not_transGen_of_acc (hvisited.ordered.acc (hvisited.visits ha))
  · intro hacyclic
    have hreach : ∀ a ∈ nodes, ∀ b, ReflTransGen (Needs next) a b → b ∈ nodes.toFinset := by
      intro a ha b hab
      rw [List.mem_toFinset]
      induction hab with
      | refl => exact ha
      | tail _ hbc ih => exact hclosed _ ih _ hbc
    refine foldlM_isSome (fun a ha order => exists_visit (hreach a ha) (fun b hb => hacyclic b (List.mem_toFinset.1 hb))
      (Nat.lt_of_le_of_lt (List.toFinset_card_le _) hdepth) order) []

end ArtPi.DepthFirst
