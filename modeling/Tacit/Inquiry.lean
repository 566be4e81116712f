import Tacit.Catalog

/-!
# Inquiries

Finding what an expression means, or what it can be used as, may need the same of other
expressions, given by name.  An `Inquiry` is such a search written down: it is done, or it asks for
the answer to one name and goes on with it.  A `Resolver` knows the item behind each name and the
inquiry it takes.

`Resolver.answer` runs inquiries with a memory.  A finished answer, failures included, is kept and
never worked out again.  Names whose answers are being worked out are taken off the catalog of open
items, so an item that leads back to itself fails instead of going round, and every search ends.
-/

namespace Tacit

/-- A search for an `α` that may ask for the `β` of names. -/
inductive Inquiry (ε β α : Type) where
  /-- The search is over. -/
  | done (result : Except ε α)
  /-- Go on with the answer to a name; a failure to answer it ends the search. -/
  | ask (id : String) (next : β → Inquiry ε β α)

namespace Inquiry

variable {ε β α γ : Type}

/-- Go on from the result of a search. -/
def bind : Inquiry ε β α → (α → Inquiry ε β γ) → Inquiry ε β γ
  | done (.ok value), next => next value
  | done (.error error), _ => done (.error error)
  | ask id more, next => ask id fun answer => (more answer).bind next

instance : Monad (Inquiry ε β) where
  pure value := done (.ok value)
  bind := bind

instance : MonadLift (Except ε) (Inquiry ε β) where
  monadLift := done

/-- The search that fails at once. -/
def fail (error : ε) : Inquiry ε β α := done (.error error)

/-- The search that asks for one name. -/
def get (id : String) : Inquiry ε β β := ask id pure

end Inquiry

/-- Answers that have been worked out. -/
abbrev Memory (ε β : Type) := Catalog (Except ε β)

/-- Run a search, with `answer` for the names it asks. -/
def Inquiry.run {ε β α : Type} (answer : String → Memory ε β → Except ε β × Memory ε β) :
    Inquiry ε β α → Memory ε β → Except ε α × Memory ε β
  | .done result, memory => (result, memory)
  | .ask id next, memory =>
      match answer id memory with
      | (.ok value, later) => (next value).run answer later
      | (.error error, later) => (.error error, later)

/-- Named items, each with the search for its answer. -/
structure Resolver (ι ε β : Type) where
  /-- The items. -/
  items : Catalog ι
  /-- The search for the answer of an item. -/
  inquiry : ι → Inquiry ε β β
  /-- The failure of a name that is needed for its own answer. -/
  cycle : String → ε
  /-- The failure of a name without item. -/
  unknown : String → ε

namespace Resolver

variable {ι ε β α : Type}

/-- The answer to a name, while only the items of `opened` are not yet being worked on.  It is
remembered, except where the name has no item or its item is being worked on. -/
def answer (resolver : Resolver ι ε β) (opened : Catalog ι) (id : String)
    (memory : Memory ε β) : Except ε β × Memory ε β :=
  match memory.get? id with
  | some known => (known, memory)
  | none =>
      match _found : opened.get? id with
      | some item =>
          let (result, later) :=
            (resolver.inquiry item).run (resolver.answer (opened.erase id)) memory
          (result, later.insert id result)
      | none =>
          let error := if resolver.items.contains id then resolver.cycle id
            else resolver.unknown id
          (.error error, memory)
termination_by opened.size
decreasing_by exact Catalog.size_erase_lt _found

/-- Run a search with all items open. -/
def run (resolver : Resolver ι ε β) (search : Inquiry ε β α) (memory : Memory ε β) :
    Except ε α × Memory ε β :=
  search.run (resolver.answer resolver.items) memory

end Resolver

end Tacit
