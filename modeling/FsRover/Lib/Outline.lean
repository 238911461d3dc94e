import Mathlib.Data.List.Basic
import Mathlib.Data.Nat.Notation
import Mathlib.Tactic.Common

/-!
# Lists that refer to lists

An entry of a list is an item, a reference to another list, an entry to pass over, an entry that is of
no use, or the mark at which the list ends. References are followed down to a certain level. A search
runs through the entries until an item answers it; an item may also answer that there is nothing.

## Main definitions

* `Outline.items` : what the lists hold, in order.
* `Outline.search` : the search through them.

## Main results

* `Outline.search_agrees` : if no two items answer, the search gives the answer.
-/

namespace Outline

/-- An entry of a list. -/
inductive Entry (α ε ν : Type*)
  | stop
  | skip
  | bad (e : ε)
  | item (a : α)
  | list (v : ν)

variable {α β ε ν : Type*}

/-- What a list holds up to its mark, where a reference stands for `sub`. -/
def gather (sub : ν → List (Except ε α)) : List (Entry α ε ν) → List (Except ε α)
  | [] => []
  | .stop :: _ => []
  | .skip :: xs => gather sub xs
  | .bad e :: xs => .error e :: gather sub xs
  | .item a :: xs => .ok a :: gather sub xs
  | .list v :: xs => sub v ++ gather sub xs

/-- The items among them. -/
def goods (xs : List (Except ε α)) : List α := xs.filterMap Except.toOption

/-- A search through a list, where `sub` searches a reference. -/
def scan (hit : α → Option (Option β)) (sub : ν → Except ε (Option β)) :
    List (Entry α ε ν) → Except ε (Option β)
  | [] => .ok none
  | .stop :: _ => .ok none
  | .skip :: xs => scan hit sub xs
  | .bad e :: _ => .error e
  | .item a :: xs =>
    match hit a with
    | some r => .ok r
    | none => scan hit sub xs
  | .list v :: xs =>
    match sub v with
    | .ok none => scan hit sub xs
    | r => r

/-- The answer of the first item that answers. -/
def found (hit : α → Option (Option β)) (as : List α) : Option β := (as.findSome? hit).join

/-- No two items answer. -/
def Lone (hit : α → Option (Option β)) (as : List α) : Prop :=
  as.Pairwise fun a b => hit a = none ∨ hit b = none

/-- A search ends with the answer, or with an entry that is of no use. -/
def Agrees (hit : α → Option (Option β)) (xs : List (Except ε α)) : Except ε (Option β) → Prop
  | .ok r => r = found hit (goods xs)
  | .error e => .error e ∈ xs

section

variable {hit : α → Option (Option β)} {sub : ν → Except ε (Option β)}
  {held : ν → List (Except ε α)} {xs ys : List (Except ε α)}

@[simp] theorem goods_append : goods (xs ++ ys) = goods xs ++ goods ys := List.filterMap_append

@[simp] theorem goods_ok {a : α} : goods (.ok a :: xs : List (Except ε α)) = a :: goods xs := rfl

theorem found_none {as : List α} (h : ∀ a ∈ as, hit a = none) : found hit as = none := by
  rw [found, List.findSome?_eq_none_iff.mpr h]
  rfl

/-- Where one list has an item that answers, the other has none. -/
theorem found_append {as bs : List α} (h : Lone hit (as ++ bs)) :
    found hit (as ++ bs) = (found hit as).or (found hit bs) := by
  have hcross := (List.pairwise_append.mp h).2.2
  rw [found, List.findSome?_append]
  cases has : as.findSome? hit with
  | none => rw [found, has, Option.none_or, Option.join_none, Option.none_or, found]
  | some r =>
    obtain ⟨a, ha, hr⟩ := List.exists_of_findSome?_eq_some has
    have hbs : ∀ b ∈ bs, hit b = none := fun b hb =>
      (hcross a ha b hb).resolve_left (by rw [hr]; exact Option.some_ne_none r)
    rw [found_none hbs, Option.or_none, found, has, Option.some_or]

/-- A search through a list agrees with what it holds if the searches through its references do. -/
theorem scan_agrees {es : List (Entry α ε ν)}
    (hsub : ∀ v, Lone hit (goods (held v)) → Agrees hit (held v) (sub v))
    (h : Lone hit (goods (gather held es))) : Agrees hit (gather held es) (scan hit sub es) := by
  induction es with
  | nil => exact rfl
  | cons x es ih =>
    cases x with
    | stop => exact rfl
    | skip => exact ih h
    | bad e => exact List.mem_cons_self
    | item a =>
      rw [gather, goods_ok] at h
      have hrest := ih (List.pairwise_cons.mp h).2
      rw [gather, scan]
      cases ha : hit a with
      | some r =>
        refine (?_ : r = found hit (a :: goods (gather held es)))
        rw [found, List.findSome?_cons_of_isSome (by rw [ha]; rfl), ha]
        rfl
      | none =>
        have hfound : found hit (a :: goods (gather held es))
            = found hit (goods (gather held es)) := by
          rw [found, List.findSome?_cons_of_isNone (by rw [ha]; rfl), found]
        cases hscan : scan hit sub es with
        | error e =>
          rw [hscan] at hrest
          exact List.mem_cons_of_mem _ hrest
        | ok r =>
          rw [hscan] at hrest
          exact hrest.trans hfound.symm
    | list v =>
      rw [gather, goods_append] at h
      obtain ⟨hv, hes, -⟩ := List.pairwise_append.mp h
      have hfirst := hsub v hv
      have hrest := ih hes
      have hboth : found hit (goods (held v ++ gather held es))
          = (found hit (goods (held v))).or (found hit (goods (gather held es))) := by
        rw [goods_append, found_append h]
      rw [gather, scan]
      cases hv : sub v with
      | error e =>
        rw [hv] at hfirst
        exact List.mem_append_left _ hfirst
      | ok r =>
      rw [hv] at hfirst
      have hr : r = found hit (goods (held v)) := hfirst
      rw [← hr] at hboth
      cases r with
      | some b => exact hboth.symm
      | none =>
        cases hscan : scan hit sub es with
        | error e =>
          rw [hscan] at hrest
          exact List.mem_append_right _ hrest
        | ok r =>
          rw [hscan] at hrest
          exact hrest.trans hboth.symm

/-- What holds of every answer of an item holds of the answer of a search. -/
theorem scan_forall {p : β → Prop} (hhit : ∀ a b, hit a = some (some b) → p b)
    (hsub : ∀ v b, sub v = .ok (some b) → p b) {es : List (Entry α ε ν)} {b : β}
    (h : scan hit sub es = .ok (some b)) : p b := by
  induction es with
  | nil => cases h
  | cons x es ih =>
    cases x with
    | stop => cases h
    | skip => exact ih h
    | bad e => cases h
    | item a =>
      rw [scan] at h
      cases ha : hit a with
      | none =>
        rw [ha] at h
        exact ih h
      | some r =>
        rw [ha] at h
        exact hhit a b (ha.trans (congrArg some (Except.ok.inj h)))
    | list v =>
      rw [scan] at h
      cases hv : sub v with
      | error e =>
        rw [hv] at h
        cases h
      | ok r =>
        rw [hv] at h
        cases r with
        | none => exact ih h
        | some c => exact hsub v b (hv.trans h)

end

section

variable (hit : α → Option (Option β)) (deep : ε) (content : ν → List (Entry α ε ν))

/-- What a list holds, with references followed `n` levels down. -/
def items : ℕ → List (Entry α ε ν) → List (Except ε α)
  | 0 => gather fun _ => [.error deep]
  | n + 1 => gather fun v => items n (content v)

/-- The search through a list, with references followed `n` levels down. -/
def search : ℕ → List (Entry α ε ν) → Except ε (Option β)
  | 0 => scan hit fun _ => .error deep
  | n + 1 => scan hit fun v => search n (content v)

/-- The search through a reference, that leaves `n` levels. -/
def follow : ℕ → ν → Except ε (Option β)
  | 0, _ => .error deep
  | n + 1, v => search hit deep content n (content v)

variable {hit deep content}

/-- If no two items answer, the search gives the answer, or meets an entry that is of no use. -/
theorem search_agrees {n : ℕ} {es : List (Entry α ε ν)}
    (h : Lone hit (goods (items deep content n es))) :
    Agrees hit (items deep content n es) (search hit deep content n es) := by
  induction n generalizing es with
  | zero => exact scan_agrees (fun v hv => List.mem_singleton.mpr rfl) h
  | succ n ih => exact scan_agrees (fun v hv => ih hv) h

theorem search_eq {n : ℕ} {es : List (Entry α ε ν)} :
    search hit deep content n es = scan hit (follow hit deep content n) es := by
  cases n <;> rfl

theorem follow_forall {p : β → Prop} (hhit : ∀ a b, hit a = some (some b) → p b) {n : ℕ} {v : ν}
    {b : β} (h : follow hit deep content n v = .ok (some b)) : p b := by
  induction n generalizing v b with
  | zero => cases h
  | succ n ih =>
    rw [follow, search_eq] at h
    exact scan_forall hhit (fun v b hv => ih hv) h

end

end Outline
