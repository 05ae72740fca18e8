import Ztk.Lib.Machine
import Ztk.Lib.Ring

/-!
# Queues

`queue_t` and `queue_node_t` of `wepoll.c`.  A queue is a ring of nodes with a head, and a node
that is in no queue is linked to itself.  Next to the rings stand the lists that they are for:
`Port` keeps the update queue and the queue of deleted sockets as such lists, and `PollGroups`
the queue of groups.
-/

namespace Ztk.Wepoll

open Ztk.Lib

/-- A `queue_node_t`: the head of a queue, or part of a socket or of a poll group. -/
inductive QueueCell (κ ν : Type) where
  | head (q : κ)
  | node (n : ν)
deriving DecidableEq

/-! ## The functions of the source -/

section Functions

variable {α : Type} [DecidableEq α]

/-- `queue_node_init`. -/
def queueNodeInit (s : Links α) (node : α) : Links α where
  next := Function.update s.next node node
  prev := Function.update s.prev node node

/-- `queue__detach_node`. -/
def queueDetachNode (s : Links α) (node : α) : Links α :=
  let s := { s with next := Function.update s.next (s.prev node) (s.next node) }
  { s with prev := Function.update s.prev (s.next node) (s.prev node) }

/-- `queue_prepend`. -/
def queuePrepend (s : Links α) (queue node : α) : Links α :=
  let s := { s with next := Function.update s.next node (s.next queue) }
  let s := { s with prev := Function.update s.prev node queue }
  let s := { s with prev := Function.update s.prev (s.next node) node }
  { s with next := Function.update s.next queue node }

/-- `queue_append`. -/
def queueAppend (s : Links α) (queue node : α) : Links α :=
  let s := { s with next := Function.update s.next node queue }
  let s := { s with prev := Function.update s.prev node (s.prev queue) }
  let s := { s with next := Function.update s.next (s.prev node) node }
  { s with prev := Function.update s.prev queue node }

/-- `queue_move_to_start`. -/
def queueMoveToStart (s : Links α) (queue node : α) : Links α :=
  queuePrepend (queueDetachNode s node) queue node

/-- `queue_move_to_end`. -/
def queueMoveToEnd (s : Links α) (queue node : α) : Links α :=
  queueAppend (queueDetachNode s node) queue node

/-- `queue_remove`. -/
def queueRemove (s : Links α) (node : α) : Links α := queueNodeInit (queueDetachNode s node) node

/-- `queue_is_enqueued`. -/
def queueIsEnqueued (s : Links α) (node : α) : Bool := s.prev node ≠ node

/-- `queue_is_empty`. -/
def queueIsEmpty (s : Links α) (queue : α) : Bool := !queueIsEnqueued s queue

/-- `queue_first`. -/
def queueFirst (s : Links α) (queue : α) : Option α :=
  if queueIsEmpty s queue then none else some (s.next queue)

/-- `queue_last`. -/
def queueLast (s : Links α) (queue : α) : Option α :=
  if queueIsEmpty s queue then none else some (s.prev queue)

end Functions

/-! ## Queues and their lists -/

structure QueueWorld (κ ν : Type) where
  links : Links (QueueCell κ ν)
  /-- The nodes of every queue. -/
  items : κ → List ν

inductive QueueAct (κ ν : Type) where
  | prepend (q : κ) (n : ν)
  | append (q : κ) (n : ν)
  | moveToStart (q : κ) (n : ν)
  | moveToEnd (q : κ) (n : ν)
  | remove (n : ν)

variable {κ ν : Type} [DecidableEq κ] [DecidableEq ν]

namespace QueueWorld

/-- After `queue_init` and `queue_node_init`. -/
def start : QueueWorld κ ν where
  links := ⟨id, id⟩
  items _ := []

def prepend (s : QueueWorld κ ν) (q : κ) (n : ν) : QueueWorld κ ν where
  links := queuePrepend s.links (.head q) (.node n)
  items := Function.update s.items q (n :: s.items q)

def append (s : QueueWorld κ ν) (q : κ) (n : ν) : QueueWorld κ ν where
  links := queueAppend s.links (.head q) (.node n)
  items := Function.update s.items q (s.items q ++ [n])

def moveToStart (s : QueueWorld κ ν) (q : κ) (n : ν) : QueueWorld κ ν where
  links := queueMoveToStart s.links (.head q) (.node n)
  items := Function.update s.items q (n :: (s.items q).erase n)

def moveToEnd (s : QueueWorld κ ν) (q : κ) (n : ν) : QueueWorld κ ν where
  links := queueMoveToEnd s.links (.head q) (.node n)
  items := Function.update s.items q ((s.items q).erase n ++ [n])

def remove (s : QueueWorld κ ν) (n : ν) : QueueWorld κ ν where
  links := queueRemove s.links (.node n)
  items q := (s.items q).erase n

end QueueWorld

def queueStep (s : QueueWorld κ ν) : QueueAct κ ν → Option (QueueWorld κ ν)
  | .prepend q n => some (s.prepend q n)
  | .append q n => some (s.append q n)
  | .moveToStart q n => some (s.moveToStart q n)
  | .moveToEnd q n => some (s.moveToEnd q n)
  | .remove n => some (s.remove n)

def queueMachine : Machine (QueueWorld κ ν) (QueueAct κ ν) := ⟨queueStep⟩

/-- A node goes into a queue when it is in none, and is moved within its own queue. -/
def QueueUse (s : QueueWorld κ ν) : QueueAct κ ν → Prop
  | .prepend _ n | .append _ n => ∀ q, n ∉ s.items q
  | .moveToStart q n | .moveToEnd q n => n ∈ s.items q
  | .remove _ => True

instance [Fintype κ] (s : QueueWorld κ ν) (a : QueueAct κ ν) : Decidable (QueueUse s a) :=
  match a with
  | .prepend _ n | .append _ n => inferInstanceAs (Decidable (∀ q, n ∉ s.items q))
  | .moveToStart q n | .moveToEnd q n => inferInstanceAs (Decidable (n ∈ s.items q))
  | .remove _ => isTrue trivial

/-! ## One write after the other -/

theorem queueDetachNode_eq {α : Type} [DecidableEq α] (s : Links α) (node : α) :
    queueDetachNode s node = s.link (s.prev node) (s.next node) := by
  have hnext : Function.update s.next (s.prev node) (s.next node) node = s.next node := by
    rw [Function.update_apply]
    split <;> rfl
  rw [queueDetachNode, Links.link]
  simp only [hnext]

theorem queuePrepend_eq {α : Type} [DecidableEq α] (s : Links α) (queue node : α) :
    queuePrepend s queue node = s.splice queue node (s.next queue) := by
  rw [queuePrepend, Links.splice]
  simp only [Function.update_self]

theorem queueAppend_eq {α : Type} [DecidableEq α] (s : Links α) (queue node : α) :
    queueAppend s queue node = s.splice (s.prev queue) node queue := by
  rw [queueAppend, Links.splice]
  simp only [Function.update_self]

/-! ## The rings are the lists -/

/-- The cells of a queue. -/
def cells (items : κ → List ν) (q : κ) : List (QueueCell κ ν) := .head q :: (items q).map .node

/-- The rings are the lists, no node is in two of them, and every other node, except perhaps
for some, is linked to itself. -/
structure QueueMid (links : Links (QueueCell κ ν)) (items : κ → List ν) (out : ν → Prop) :
    Prop where
  ring : ∀ q, links.Ring (.head q) ((items q).map .node)
  once : ∀ q, (items q).Nodup
  apart : ∀ {q q' n}, n ∈ items q → n ∈ items q' → q = q'
  alone : ∀ n, (∀ q, n ∉ items q) → out n ∨ links.Linked (.node n) (.node n)

/-- Between two calls every other node is linked to itself. -/
def QueueInv (s : QueueWorld κ ν) : Prop := QueueMid s.links s.items fun _ => False

/-- Both ends of a list with an element more. -/
theorem exists_cut {α : Type} (h : α) (l : List α) :
    (∃ a u, h :: l = a ++ [u]) ∧ ∃ v b, l ++ [h] = v :: b := by
  constructor
  · obtain hnil | ⟨a, u, he⟩ := List.eq_nil_or_concat (h :: l)
    · cases hnil
    · exact ⟨a, u, he.trans (List.concat_eq_append ..)⟩
  · cases l with
    | nil => exact ⟨h, [], rfl⟩
    | cons x l => exact ⟨x, l ++ [h], rfl⟩

namespace QueueMid

variable {links : Links (QueueCell κ ν)} {items : κ → List ν} {out : ν → Prop} {q : κ} {n : ν}
  {u v : QueueCell κ ν} {a b : List (QueueCell κ ν)} {l₁ l₂ : List ν}

omit [DecidableEq κ] [DecidableEq ν] in
theorem mem_cells {c : QueueCell κ ν} :
    c ∈ cells items q ↔ c = .head q ∨ ∃ m ∈ items q, .node m = c := by
  rw [cells, List.mem_cons, List.mem_map]

omit [DecidableEq κ] [DecidableEq ν] in
theorem node_mem_cells : .node n ∈ cells items q ↔ n ∈ items q := by
  rw [mem_cells]
  constructor
  · rintro (⟨⟨⟩⟩ | ⟨m, hm, ⟨⟩⟩)
    exact hm
  · intro hn
    exact Or.inr ⟨n, hn, rfl⟩

omit [DecidableEq κ] [DecidableEq ν] in
theorem nodup_cells (h : QueueMid links items out) (q : κ) : (cells items q).Nodup := by
  refine List.nodup_cons.mpr ⟨fun hm => ?_, (h.once q).map fun _ _ => QueueCell.node.inj⟩
  obtain ⟨_, -, he⟩ := List.mem_map.mp hm
  cases he

omit [DecidableEq κ] [DecidableEq ν] in
/-- No cell is in two queues. -/
theorem cell_apart (h : QueueMid links items out) {c : QueueCell κ ν} {p : κ}
    (hq : c ∈ cells items q) (hp : c ∈ cells items p) : q = p := by
  cases c with
  | head r =>
      rcases mem_cells.mp hq with ⟨⟨⟩⟩ | ⟨_, -, ⟨⟩⟩
      rcases mem_cells.mp hp with ⟨⟨⟩⟩ | ⟨_, -, ⟨⟩⟩
      rfl
  | node m => exact h.apart (node_mem_cells.mp hq) (node_mem_cells.mp hp)

omit [DecidableEq κ] [DecidableEq ν] in
theorem mono {out' : ν → Prop} (h : QueueMid links items out) (ho : ∀ n, out n → out' n) :
    QueueMid links items out' where
  ring := h.ring
  once := h.once
  apart := h.apart
  alone m hm := (h.alone m hm).imp_left (ho m)

omit [DecidableEq κ] [DecidableEq ν] in
/-- The ends of a cut are cells of the queue. -/
theorem cut_cells (hq : items q = l₁ ++ l₂) (hu : .head q :: l₁.map .node = a ++ [u])
    (hv : l₂.map .node ++ [.head q] = v :: b) : u ∈ cells items q ∧ v ∈ cells items q := by
  rw [cells, hq, List.map_append]
  exact Links.cut_mem hu hv

/-- A node that is in no queue is put into one. -/
theorem splice (h : QueueMid links items (· = n)) (hn : ∀ p, n ∉ items p)
    (hq : items q = l₁ ++ l₂) (hu : .head q :: l₁.map .node = a ++ [u])
    (hv : l₂.map .node ++ [.head q] = v :: b) :
    QueueMid (links.splice u (.node n) v) (Function.update items q (l₁ ++ n :: l₂))
      fun _ => False := by
  obtain ⟨hum, hvm⟩ := cut_cells hq hu hv
  have hout : ∀ p, .node n ∉ cells items p := fun p hm => hn p (node_mem_cells.mp hm)
  have hmem : ∀ p m, m ∈ Function.update items q (l₁ ++ n :: l₂) p →
      p = q ∧ m = n ∨ m ∈ items p := by
    intro p m hm
    by_cases hp : p = q
    · subst hp
      rw [Function.update_self, List.mem_append, List.mem_cons] at hm
      rw [hq, List.mem_append]
      tauto
    · rw [Function.update_of_ne hp] at hm
      exact Or.inr hm
  refine ⟨fun p => ?_, fun p => ?_, fun {p r m} hp hr => ?_, fun m hm => Or.inr ?_⟩
  · by_cases hp : p = q
    · subst hp
      have hring := h.ring p
      have hnodup := h.nodup_cells p
      have hfresh := hout p
      rw [hq, List.map_append] at hring
      rw [cells, hq, List.map_append] at hnodup hfresh
      rw [Function.update_self, List.map_append, List.map_cons]
      exact hring.splice hu hv hnodup hfresh
    · rw [Function.update_of_ne hp]
      refine (h.ring p).congr fun x hx => ?_
      have hxn : x ≠ .node n := fun he => hout p (he ▸ hx)
      have hxu : x ≠ u := fun he => hp (h.cell_apart (he ▸ hx) hum)
      have hxv : x ≠ v := fun he => hp (h.cell_apart (he ▸ hx) hvm)
      exact ⟨(Function.update_of_ne hxu ..).trans (Function.update_of_ne hxn ..),
        (Function.update_of_ne hxv ..).trans (Function.update_of_ne hxn ..)⟩
  · by_cases hp : p = q
    · subst hp
      rw [Function.update_self, List.nodup_middle, List.nodup_cons, ← hq]
      exact ⟨hn p, h.once p⟩
    · rw [Function.update_of_ne hp]
      exact h.once p
  · rcases hmem p m hp with ⟨rfl, rfl⟩ | hp' <;> rcases hmem r m hr with ⟨rfl, hm⟩ | hr'
    · rfl
    · exact absurd hr' (hn r)
    · exact absurd (hm ▸ hp') (hn p)
    · exact h.apart hp' hr'
  · have hkeep : ∀ p, m ∉ items p := by
      intro p hp
      refine hm p ?_
      by_cases hpq : p = q
      · subst hpq
        rw [hq, List.mem_append] at hp
        rw [Function.update_self, List.mem_append, List.mem_cons]
        tauto
      · rw [Function.update_of_ne hpq]
        exact hp
    have hne : m ≠ n := by
      rintro rfl
      refine hm q ?_
      rw [Function.update_self]
      exact List.mem_append_right _ List.mem_cons_self
    have hmn : (.node m : QueueCell κ ν) ≠ .node n := fun he => hne (QueueCell.node.inj he)
    have hmu : .node m ≠ u := fun he => hkeep q (node_mem_cells.mp (he ▸ hum))
    have hmv : .node m ≠ v := fun he => hkeep q (node_mem_cells.mp (he ▸ hvm))
    have hself := (h.alone m hkeep).resolve_left hne
    exact ⟨(Function.update_of_ne hmu ..).trans ((Function.update_of_ne hmn ..).trans hself.1),
      (Function.update_of_ne hmv ..).trans ((Function.update_of_ne hmn ..).trans hself.2)⟩

theorem prepend (h : QueueMid links items (· = n)) (hn : ∀ p, n ∉ items p) (q : κ) :
    QueueMid (queuePrepend links (.head q) (.node n)) (Function.update items q (n :: items q))
      fun _ => False := by
  obtain ⟨v, b, hv⟩ := (exists_cut (QueueCell.head q) ((items q).map .node)).2
  have hu : QueueCell.head q :: ([] : List ν).map .node = [] ++ [.head q] := rfl
  have hlink := ((Links.ring_cut hu hv).mp (h.ring q)).2.1
  rw [queuePrepend_eq, hlink.1]
  exact h.splice hn (List.nil_append _).symm hu hv

theorem append (h : QueueMid links items (· = n)) (hn : ∀ p, n ∉ items p) (q : κ) :
    QueueMid (queueAppend links (.head q) (.node n)) (Function.update items q (items q ++ [n]))
      fun _ => False := by
  obtain ⟨a, u, hu⟩ := (exists_cut (QueueCell.head q) ((items q).map .node)).1
  have hv : ([] : List ν).map QueueCell.node ++ [.head q] = .head q :: [] := rfl
  have hring := h.ring q
  rw [← List.append_nil ((items q).map QueueCell.node)] at hring
  have hlink := ((Links.ring_cut hu hv).mp hring).2.1
  rw [queueAppend_eq, hlink.2]
  exact h.splice hn (List.append_nil _).symm hu hv

/-- A node is taken out of its queue, if it is in one, and still points there. -/
theorem detach (h : QueueMid links items fun _ => False) (n : ν) :
    QueueMid (queueDetachNode links (.node n)) (fun p => (items p).erase n) (· = n) := by
  rw [queueDetachNode_eq]
  by_cases hin : ∃ q, n ∈ items q
  · obtain ⟨q, hn⟩ := hin
    obtain ⟨l₁, l₂, hl⟩ := List.append_of_mem hn
    obtain ⟨a, u, hu⟩ := (exists_cut (QueueCell.head q) (l₁.map QueueCell.node)).1
    obtain ⟨v, b, hv⟩ := (exists_cut (QueueCell.head q) (l₂.map QueueCell.node)).2
    have hring := h.ring q
    rw [hl, List.map_append, List.map_cons] at hring
    obtain ⟨hbefore, hafter⟩ := hring.neighbours hu hv
    rw [hbefore.2, hafter.1]
    have hnl : n ∉ l₁ ∧ (l₁ ++ l₂).Nodup := by
      have honce := h.once q
      rw [hl, List.nodup_middle, List.nodup_cons, List.mem_append, not_or] at honce
      exact ⟨honce.1.1, honce.2⟩
    have herase : (items q).erase n = l₁ ++ l₂ := by
      rw [hl, List.erase_append_right _ hnl.1, List.erase_cons_head]
    have hrest : ∀ p, p ≠ q → (items p).erase n = items p := fun p hp =>
      List.erase_of_not_mem fun hm => hp (h.apart hm hn)
    have hsub : ∀ {c}, c ∈ .head q :: (l₁.map QueueCell.node ++ l₂.map .node) →
        c ∈ cells items q := by
      intro c hc
      rw [cells, hl, List.map_append, List.map_cons]
      exact ((List.sublist_cons_self _ _).append_left _ |>.cons_cons _).mem hc
    obtain ⟨hum, hvm⟩ := Links.cut_mem hu hv
    refine ⟨fun p => ?_, fun p => (h.once p).erase n, fun hp hr => ?_, fun m hm => ?_⟩
    · by_cases hp : p = q
      · subst hp
        rw [herase, List.map_append]
        refine hring.link hu hv (List.nodup_cons.mpr ⟨fun hm => ?_, ?_⟩)
        · rw [← List.map_append] at hm
          obtain ⟨_, -, he⟩ := List.mem_map.mp hm
          cases he
        · rw [← List.map_append]
          exact hnl.2.map fun _ _ => QueueCell.node.inj
      · rw [hrest p hp]
        refine (h.ring p).congr fun x hx => ?_
        have hxu : x ≠ u := fun he => hp (h.cell_apart (he ▸ hx) (hsub hum))
        have hxv : x ≠ v := fun he => hp (h.cell_apart (he ▸ hx) (hsub hvm))
        exact ⟨Function.update_of_ne hxu .., Function.update_of_ne hxv ..⟩
    · exact h.apart (List.mem_of_mem_erase hp) (List.mem_of_mem_erase hr)
    · by_cases hmn : m = n
      · exact Or.inl hmn
      · have hout : ∀ p, m ∉ items p := fun p hp => hm p ((List.mem_erase_of_ne hmn).mpr hp)
        have hmu : .node m ≠ u := fun he => hout q (node_mem_cells.mp (he ▸ hsub hum))
        have hmv : .node m ≠ v := fun he => hout q (node_mem_cells.mp (he ▸ hsub hvm))
        have hself := (h.alone m hout).resolve_left id
        exact Or.inr ⟨(Function.update_of_ne hmu ..).trans hself.1,
          (Function.update_of_ne hmv ..).trans hself.2⟩
  · have hout : ∀ q, n ∉ items q := fun q hn => hin ⟨q, hn⟩
    obtain ⟨hnext, hprev⟩ := (h.alone n hout).resolve_left id
    have hsame : links.link (links.prev (.node n)) (links.next (.node n)) = links := by
      rw [Links.link, Function.update_eq_self_iff.mpr, Function.update_eq_self_iff.mpr]
      · rw [hnext, hprev]
      · rw [hnext, hprev, hnext]
    have herase : (fun p => (items p).erase n) = items :=
      funext fun p => List.erase_of_not_mem (hout p)
    rw [hsame, herase]
    exact h.mono fun _ hf => hf.elim

/-- A node that is in no queue is linked to itself. -/
theorem init (h : QueueMid links items (· = n)) (hn : ∀ p, n ∉ items p) :
    QueueMid (queueNodeInit links (.node n)) items fun _ => False where
  ring p := (h.ring p).congr fun x hx =>
    have hxn : x ≠ .node n := fun he => hn p (node_mem_cells.mp (he ▸ hx))
    ⟨Function.update_of_ne hxn .., Function.update_of_ne hxn ..⟩
  once := h.once
  apart := h.apart
  alone m hm := by
    by_cases hmn : m = n
    · subst hmn
      exact Or.inr ⟨Function.update_self .., Function.update_self ..⟩
    · have hne : (.node m : QueueCell κ ν) ≠ .node n := fun he => hmn (QueueCell.node.inj he)
      have hself := (h.alone m hm).resolve_left hmn
      exact Or.inr ⟨(Function.update_of_ne hne ..).trans hself.1,
        (Function.update_of_ne hne ..).trans hself.2⟩

omit [DecidableEq κ] in
/-- After `queue__detach_node` the node is in no queue. -/
theorem not_mem_erase (h : QueueMid links items out) (p : κ) : n ∉ (items p).erase n :=
  (h.once p).not_mem_erase

end QueueMid

namespace QueueInv

variable {s s' : QueueWorld κ ν} {q : κ} {n : ν}

omit [DecidableEq κ] [DecidableEq ν] in
theorem start : QueueInv (.start : QueueWorld κ ν) where
  ring _ := Links.ring_nil.mpr ⟨rfl, rfl⟩
  once _ := List.nodup_nil
  apart h := absurd h List.not_mem_nil
  alone _ _ := Or.inr ⟨rfl, rfl⟩

/-- Where a node is in one queue, the others are as they were without it. -/
theorem update_erase (h : QueueInv s) (hn : n ∈ s.items q) (l : List ν) :
    Function.update (fun p => (s.items p).erase n) q l = Function.update s.items q l := by
  funext p
  by_cases hp : p = q
  · subst hp
    rw [Function.update_self, Function.update_self]
  · rw [Function.update_of_ne hp, Function.update_of_ne hp]
    exact List.erase_of_not_mem fun hm => hp (h.apart hm hn)

theorem prepend (h : QueueInv s) (hn : ∀ p, n ∉ s.items p) (q : κ) : QueueInv (s.prepend q n) :=
  (QueueMid.mono h fun _ hf => hf.elim).prepend hn q

theorem append (h : QueueInv s) (hn : ∀ p, n ∉ s.items p) (q : κ) : QueueInv (s.append q n) :=
  (QueueMid.mono h fun _ hf => hf.elim).append hn q

theorem moveToStart (h : QueueInv s) (hn : n ∈ s.items q) : QueueInv (s.moveToStart q n) := by
  have hmid := (QueueMid.detach h n).prepend (QueueMid.not_mem_erase h) q
  rw [h.update_erase hn] at hmid
  exact hmid

theorem moveToEnd (h : QueueInv s) (hn : n ∈ s.items q) : QueueInv (s.moveToEnd q n) := by
  have hmid := (QueueMid.detach h n).append (QueueMid.not_mem_erase h) q
  rw [h.update_erase hn] at hmid
  exact hmid

theorem remove (h : QueueInv s) (n : ν) : QueueInv (s.remove n) :=
  (QueueMid.detach h n).init (QueueMid.not_mem_erase h)

theorem step (h : QueueInv s) {a : QueueAct κ ν} (hc : QueueUse s a)
    (hs : queueStep s a = some s') : QueueInv s' := by
  cases a with
  | prepend q n =>
      cases hs
      exact h.prepend hc q
  | append q n =>
      cases hs
      exact h.append hc q
  | moveToStart q n =>
      cases hs
      exact h.moveToStart hc
  | moveToEnd q n =>
      cases hs
      exact h.moveToEnd hc
  | remove n =>
      cases hs
      exact h.remove n

/-- A queue seen from its head. -/
theorem ends (h : QueueInv s) (q : κ) :
    queueFirst s.links (.head q) = (s.items q).head?.map .node ∧
      queueLast s.links (.head q) = (s.items q).getLast?.map .node ∧
      (queueIsEmpty s.links (.head q) = true ↔ s.items q = []) := by
  have hnext := (h.ring q).next_head
  have hprev := (h.ring q).prev_head
  rw [queueFirst, queueLast, queueIsEmpty, queueIsEnqueued]
  obtain hl | ⟨l, n, hl⟩ := List.eq_nil_or_concat (s.items q)
  · rw [hl] at hprev ⊢
    rw [hprev]
    simp
  · rw [hl, List.concat_eq_append, List.map_append] at hnext hprev
    rw [List.map_singleton, List.getLast?_concat, Option.getD_some] at hprev
    rw [hl, List.concat_eq_append, hprev, hnext, List.getLast?_concat]
    cases l <;> simp

/-- A node seen from itself. -/
theorem enqueued (h : QueueInv s) (n : ν) :
    queueIsEnqueued s.links (.node n) = true ↔ ∃ q, n ∈ s.items q := by
  rw [queueIsEnqueued, decide_eq_true_iff]
  constructor
  · intro hprev
    by_contra hout
    exact hprev ((h.alone n fun q hn => hout ⟨q, hn⟩).resolve_left id).2
  · rintro ⟨q, hn⟩
    obtain ⟨l₁, l₂, hl⟩ := List.append_of_mem hn
    obtain ⟨a, u, hu⟩ := (exists_cut (QueueCell.head q) (l₁.map QueueCell.node)).1
    obtain ⟨v, b, hv⟩ := (exists_cut (QueueCell.head q) (l₂.map QueueCell.node)).2
    have hring := h.ring q
    rw [hl, List.map_append, List.map_cons] at hring
    rw [(hring.neighbours hu hv).1.2]
    rintro rfl
    have honce := h.nodup_cells q
    rw [cells, hl, List.map_append, ← List.cons_append, hu, List.map_cons] at honce
    exact (List.disjoint_of_nodup_append honce)
      (List.mem_append_right a (List.mem_singleton_self _)) List.mem_cons_self

end QueueInv

/-- In whatever order nodes are put into queues, moved and removed, the rings are the lists:
`queue_first` and `queue_last` are the ends of the list, a queue is empty exactly if its list
is, and a node is enqueued exactly if it is in a list.  It is in no two lists, and in none
twice. -/
theorem queue_is_list {s : QueueWorld κ ν} (h : queueMachine.Leads QueueUse .start s) :
    (∀ q, queueFirst s.links (.head q) = (s.items q).head?.map .node ∧
      queueLast s.links (.head q) = (s.items q).getLast?.map .node ∧
      (queueIsEmpty s.links (.head q) = true ↔ s.items q = [])) ∧
      ∀ n, (queueIsEnqueued s.links (.node n) = true ↔ ∃ q, n ∈ s.items q) ∧
        ∀ q, (s.items q).count n ≤ 1 ∧ ∀ q', n ∈ s.items q → n ∈ s.items q' → q = q' := by
  have hi : QueueInv s := h.invariant (fun _ _ _ hi hc hs => hi.step hc hs) .start
  refine ⟨hi.ends, fun n => ⟨hi.enqueued n, fun q => ⟨?_, fun _ => hi.apart⟩⟩⟩
  exact List.nodup_iff_count_le_one.mp (hi.once q) n

/-- Two queues, between which a node is moved. -/
def queueRun : List (QueueAct Bool Nat) :=
  [.append false 1, .append false 2, .prepend false 3, .moveToEnd false 1, .append true 4,
    .remove 2, .append true 2, .moveToStart true 2]

theorem queue_is_list_two :
    ∃ s : QueueWorld Bool Nat, queueMachine.Leads QueueUse .start s ∧ s.items false = [3, 1] ∧
      s.items true = [2, 4] ∧ queueFirst s.links (.head true) = some (.node 2) := by
  obtain ⟨s, hs, h0, h1⟩ := Machine.exists_run (M := queueMachine) (s := .start) (l := queueRun)
    (P := fun s => s.items false = [3, 1] ∧ s.items true = [2, 4]) (by decide)
  have hl := Machine.leads_of_run (C := QueueUse) queueRun _ s hs (by decide)
  refine ⟨s, hl, h0, h1, ?_⟩
  rw [((queue_is_list hl).1 true).1, h1]
  rfl

end Ztk.Wepoll
