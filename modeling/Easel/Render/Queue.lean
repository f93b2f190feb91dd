/-!
# Queues

A first-in, first-out queue without a bound. Its view is the list of its items, oldest first.

* `Queue.push` — adds at the back;
* `Queue.pull?` — takes from the front, if there is something;
* `Queue.pullMany` — takes a number of items from the front, or as many as there are.
-/

namespace Easel

/-- A queue as its items. Nothing is hidden in it, so two queues with the same items are the same
queue. -/
structure Queue (α : Type) where
  /-- The items, oldest first. -/
  items : List α
deriving DecidableEq

namespace Queue

variable {α : Type}

/-- A queue with no items. -/
def empty : Queue α := ⟨[]⟩

/-- Adds an item at the back. -/
def push (q : Queue α) (a : α) : Queue α := ⟨q.items ++ [a]⟩

/-- Adds items at the back, the first of them first. -/
def pushAll (q : Queue α) (as : List α) : Queue α := as.foldl push q

/-- Takes the oldest item, and leaves the others in their order. -/
def pull? (q : Queue α) : Option (α × Queue α) :=
  match q.items with
  | [] => none
  | a :: rest => some (a, ⟨rest⟩)

/-- Takes the `n` oldest items, or all if there are fewer. It is `n` pulls in a row, of which the
first that finds nothing is the last. -/
def pullMany (q : Queue α) : Nat → List α × Queue α
  | 0 => ([], q)
  | n + 1 =>
    match q.pull? with
    | none => ([], q)
    | some (a, q) =>
      match q.pullMany n with
      | (as, q) => (a :: as, q)

/-- Drops all items. -/
def clear (_ : Queue α) : Queue α := empty

/-- How many items wait. -/
def size (q : Queue α) : Nat := q.items.length

/-- No item waits. -/
def IsEmpty (q : Queue α) : Prop := q.size = 0

instance (q : Queue α) : Decidable q.IsEmpty := inferInstanceAs (Decidable (_ = _))

/-- What the operations of a queue do to its items. With these, and the two laws of `pull?` below,
no later proof looks inside an operation. -/
@[simp] theorem items_empty : (empty : Queue α).items = [] := rfl

@[simp] theorem items_clear (q : Queue α) : q.clear.items = [] := rfl

@[simp] theorem items_push (q : Queue α) (a : α) : (q.push a).items = q.items ++ [a] := rfl

/-- Items that are added together stand behind all others, in their own order. -/
@[simp] theorem items_pushAll (q : Queue α) (as : List α) :
    (q.pushAll as).items = q.items ++ as := by
  induction as generalizing q with
  | nil => simp [pushAll]
  | cons a as ih => simpa [pushAll] using ih (q.push a)

/-- There is nothing to take exactly if there are no items. -/
theorem pull?_eq_none_iff {q : Queue α} : q.pull? = none ↔ q.items = [] := by
  cases h : q.items <;> simp [pull?, h]

/-- What is taken is the oldest item, and the others are left. Read from the right, it says how a
queue with known items is pulled from. -/
theorem pull?_eq_some_iff {q rest : Queue α} {a : α} :
    q.pull? = some (a, rest) ↔ q.items = a :: rest.items := by
  cases h : q.items with
  | nil => simp [pull?, h]
  | cons b bs =>
    simp only [pull?, h, Option.some.injEq, Prod.mk.injEq, List.cons.injEq]
    exact and_congr_right fun _ => ⟨fun e => e ▸ rfl, fun e => e ▸ rfl⟩

end Queue

end Easel
