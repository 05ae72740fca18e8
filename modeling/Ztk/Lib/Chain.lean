import Mathlib

/-!
# Singly linked queues with a tail pointer

A queue kept by a head and a tail pointer.  `nodes` is the list of the nodes
reachable from the head, each with its address, and `tail` is the tail pointer
as the program stores it.  The two are independent data: that `tail` is the
address of the last reachable node is an invariant (`Chain.WF`), not part of
the type, and the operations write through the pointer they hold.

`linkAfter a n` is the assignment `a->next = n` for a new node `n` with a null
`next`: whatever followed `a` is no longer reachable.  When no reachable node
has the address `a`, the write changes nothing that the head can reach.

Under `Chain.WF` the three operations are the list operations they stand for:
`pushBack` appends, `pushFront` prepends, `popFront` drops the first node.
-/

namespace Ztk.Lib

/-- A linked queue: the nodes reachable from the head, and the tail pointer. -/
structure Chain (α : Type) where
  /-- The reachable nodes with their addresses, from the head. -/
  nodes : List (Nat × α)
  /-- The tail pointer.  `none` is the null pointer. -/
  tail : Option Nat

namespace Chain

variable {α : Type}

/-- Head and tail are null. -/
def empty : Chain α := ⟨[], none⟩

/-- The addresses of the reachable nodes. -/
def addrs (c : Chain α) : List Nat := c.nodes.map Prod.fst

/-- The assignment `a->next = n`, where `n->next` is null. -/
def linkAfter (a : Nat) (n : Nat × α) : List (Nat × α) → List (Nat × α)
  | [] => []
  | m :: ms => if m.1 = a then [m, n] else m :: linkAfter a n ms

/-- `if (tail) tail->next = n; else head = n; tail = n;` -/
def pushBack (c : Chain α) (n : Nat × α) : Chain α :=
  match c.tail with
  | some t => ⟨linkAfter t n c.nodes, some n.1⟩
  | none => ⟨[n], some n.1⟩

/-- `n->next = head; head = n; if (!tail) tail = n;` -/
def pushFront (c : Chain α) (n : Nat × α) : Chain α :=
  ⟨n :: c.nodes, c.tail.or (some n.1)⟩

/-- `head = head->next; if (!head) tail = NULL;` -/
def popFront (c : Chain α) : Chain α :=
  ⟨c.nodes.tail, if c.nodes.tail = [] then none else c.tail⟩

/-- An assignment to the payload of the first node. -/
def modifyHead (c : Chain α) (f : α → α) : Chain α :=
  ⟨c.nodes.modifyHead fun n => (n.1, f n.2), c.tail⟩

/-- The tail pointer is the last reachable node, null exactly when there is
none, and no address occurs twice. -/
structure WF (c : Chain α) : Prop where
  /-- The tail pointer is the address of the last node. -/
  tail_eq : c.tail = c.nodes.getLast?.map Prod.fst
  /-- Addresses are unique. -/
  nodup : c.addrs.Nodup

theorem wf_empty : (empty : Chain α).WF := ⟨rfl, List.nodup_nil⟩

theorem WF.tail_eq_none {c : Chain α} (h : c.WF) : c.tail = none ↔ c.nodes = [] := by
  rw [h.tail_eq, Option.map_eq_none_iff, List.getLast?_eq_none_iff]

/-! ## What a write through the tail pointer does -/

theorem linkAfter_subset (a : Nat) (n : Nat × α) :
    ∀ l : List (Nat × α), ∀ m ∈ linkAfter a n l, m ∈ l ∨ m = n
  | [], m, hm => by simp [linkAfter] at hm
  | x :: xs, m, hm => by
      rw [linkAfter] at hm
      split at hm
      · simp only [List.mem_cons, List.not_mem_nil, or_false] at hm
        rcases hm with rfl | rfl
        · exact Or.inl (List.mem_cons_self ..)
        · exact Or.inr rfl
      · rcases List.mem_cons.mp hm with rfl | hm'
        · exact Or.inl (List.mem_cons_self ..)
        · rcases linkAfter_subset a n xs m hm' with h | h
          · exact Or.inl (List.mem_cons_of_mem _ h)
          · exact Or.inr h

/-- A write through the last node appends. -/
theorem linkAfter_last (n : Nat × α) :
    ∀ (l : List (Nat × α)) (a : Nat), (l.map Prod.fst).Nodup →
      l.getLast?.map Prod.fst = some a → linkAfter a n l = l ++ [n]
  | [], a, _, h => by simp at h
  | [x], a, _, h => by
      simp only [List.getLast?_singleton, Option.map_some, Option.some.injEq] at h
      simp [linkAfter, h]
  | x :: y :: xs, a, hnd, h => by
      rw [List.getLast?_cons_cons] at h
      have hne : x.1 ≠ a := by
        -- the last address is one of the later ones, and addresses are distinct
        obtain ⟨z, hz, rfl⟩ := Option.map_eq_some_iff.mp h
        intro he
        have hmem : z ∈ y :: xs := List.mem_of_getLast? hz
        exact (List.nodup_cons.mp hnd).1 (he ▸ List.mem_map_of_mem hmem)
      rw [linkAfter, if_neg hne, linkAfter_last n (y :: xs) a (List.nodup_cons.mp hnd).2 h]
      rfl

theorem pushBack_subset (c : Chain α) (n : Nat × α) :
    ∀ m ∈ (c.pushBack n).nodes, m ∈ c.nodes ∨ m = n := by
  intro m hm
  simp only [pushBack] at hm
  split at hm
  · exact linkAfter_subset _ n c.nodes m hm
  · exact Or.inr (List.mem_singleton.mp hm)

/-! ## The list operations -/

theorem WF.pushBack_nodes {c : Chain α} (h : c.WF) (n : Nat × α) :
    (c.pushBack n).nodes = c.nodes ++ [n] := by
  cases ht : c.tail with
  | none =>
      rw [h.tail_eq_none] at ht
      simp [pushBack, h.tail_eq, ht]
  | some t =>
      have hl : c.nodes.getLast?.map Prod.fst = some t := h.tail_eq ▸ ht
      simp only [pushBack, ht]
      exact linkAfter_last n c.nodes t h.nodup hl

@[simp] theorem pushBack_tail (c : Chain α) (n : Nat × α) : (c.pushBack n).tail = some n.1 := by
  simp only [pushBack]
  split <;> rfl

@[simp] theorem popFront_nodes (c : Chain α) : c.popFront.nodes = c.nodes.tail := rfl

theorem WF.pushBack {c : Chain α} (h : c.WF) {n : Nat × α} (hn : n.1 ∉ c.addrs) :
    (c.pushBack n).WF where
  tail_eq := by
    rw [h.pushBack_nodes, pushBack_tail, List.getLast?_append]
    rfl
  nodup := by
    rw [addrs, h.pushBack_nodes, List.map_append]
    exact List.Nodup.append h.nodup (List.nodup_singleton _) (by simpa [addrs] using hn)

theorem WF.pushFront {c : Chain α} (h : c.WF) {n : Nat × α} (hn : n.1 ∉ c.addrs) :
    (c.pushFront n).WF where
  tail_eq := by
    cases hc : c.nodes with
    | nil => simp [Chain.pushFront, hc, h.tail_eq]
    | cons m ms =>
        have hl : (m :: ms).getLast? = some ((m :: ms).getLast (List.cons_ne_nil _ _)) :=
          List.getLast?_eq_some_getLast _
        simp [Chain.pushFront, hc, h.tail_eq, List.getLast?_cons_cons, hl]
  nodup := List.nodup_cons.mpr ⟨hn, h.nodup⟩

theorem WF.popFront {c : Chain α} (h : c.WF) : c.popFront.WF where
  tail_eq := by
    cases hc : c.nodes with
    | nil => simp [Chain.popFront, hc]
    | cons m ms =>
        cases ms with
        | nil => simp [Chain.popFront, hc]
        | cons k ks => simp [Chain.popFront, hc, h.tail_eq, List.getLast?_cons_cons]
  nodup := by
    have : c.popFront.addrs = c.addrs.tail := by simp [addrs, List.map_tail]
    rw [this]
    exact h.nodup.sublist (List.tail_sublist _)

theorem WF.modifyHead {c : Chain α} (h : c.WF) (f : α → α) : (c.modifyHead f).WF := by
  cases hc : c.nodes with
  | nil => exact ⟨by simp [Chain.modifyHead, hc, h.tail_eq], by simp [addrs, Chain.modifyHead, hc]⟩
  | cons m ms =>
      refine ⟨?_, ?_⟩
      · cases ms with
        | nil => simp [Chain.modifyHead, hc, h.tail_eq]
        | cons k ks => simp [Chain.modifyHead, hc, h.tail_eq, List.getLast?_cons_cons]
      · have := h.nodup
        simpa [addrs, Chain.modifyHead, hc] using this

end Chain

end Ztk.Lib
