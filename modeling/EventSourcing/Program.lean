namespace EventSourcing

/-- A computation that ends with an `α`, after any number of requests. -/
inductive Program (Request : Type) (Reply : Request → Type) (α : Type) : Type where
  | done (value : α)
  | ask (request : Request) (next : Reply request → Program Request Reply α)

namespace Program

variable {Request : Type} {Reply : Request → Type} {α β γ : Type}

/-- Goes on with the value that a program ends with. -/
protected def bind : Program Request Reply α → (α → Program Request Reply β) →
    Program Request Reply β
  | done value, f => f value
  | ask request next, f => ask request fun reply => (next reply).bind f

instance : Monad (Program Request Reply) where
  pure := done
  bind := Program.bind

def request (r : Request) : Program Request Reply (Reply r) :=
  ask r done

/-- Answers the requests of a program one after the other. -/
def run {m : Type → Type} [Monad m] (answer : (r : Request) → m (Reply r)) :
    Program Request Reply α → m α
  | done value => pure value
  | ask r next => do
    let reply ← answer r
    (next reply).run answer

@[simp]
theorem pure_eq (value : α) : (pure value : Program Request Reply α) = done value :=
  rfl

@[simp]
theorem done_bind (value : α) (f : α → Program Request Reply β) :
    (done value >>= f) = f value :=
  rfl

@[simp]
theorem ask_bind (r : Request) (next : Reply r → Program Request Reply α)
    (f : α → Program Request Reply β) :
    (ask r next >>= f) = ask r fun reply => next reply >>= f :=
  rfl

@[simp]
theorem request_bind (r : Request) (f : Reply r → Program Request Reply β) :
    (request r >>= f) = ask r f :=
  rfl

theorem bind_done (p : Program Request Reply α) : (p >>= done) = p := by
  induction p with
  | done value => rfl
  | ask r next ih => simp [ih]

theorem bind_assoc (p : Program Request Reply α) (f : α → Program Request Reply β)
    (g : β → Program Request Reply γ) : ((p >>= f) >>= g) = (p >>= fun a => f a >>= g) := by
  induction p with
  | done value => rfl
  | ask r next ih => simp [ih]

instance : LawfulMonad (Program Request Reply) :=
  LawfulMonad.mk' _ (fun p => bind_done p) (fun _ _ => rfl) bind_assoc

/-- Running a sequence of two programs runs one after the other. -/
theorem run_bind {m : Type → Type} [Monad m] [LawfulMonad m]
    (answer : (r : Request) → m (Reply r)) (p : Program Request Reply α)
    (f : α → Program Request Reply β) :
    (p >>= f).run answer = p.run answer >>= fun a => (f a).run answer := by
  induction p with
  | done value => simp [run]
  | ask r next ih => simp [run, ih]

section Serve

variable {Inner : Type} {InnerReply : Inner → Type}
  (handler : Nat → (r : Request) → Program Inner InnerReply (Reply r))

/-- Has each request answered by a program of its own. The requests are numbered from `number` on,
and the number that comes next is told in the end. -/
def serve : (number : Nat) → Program Request Reply α → Program Inner InnerReply (α × Nat)
  | number, done value => done (value, number)
  | number, ask r next => do
    let reply ← handler number r
    serve (number + 1) (next reply)

@[simp]
theorem serve_done (number : Nat) (value : α) :
    (done value : Program Request Reply α).serve handler number = done (value, number) :=
  rfl

@[simp]
theorem serve_ask (number : Nat) (r : Request) (next : Reply r → Program Request Reply α) :
    (ask r next).serve handler number =
      handler number r >>= fun reply => (next reply).serve handler (number + 1) :=
  rfl

/-- Serving a sequence of two programs serves one after the other. -/
theorem serve_bind (number : Nat) (p : Program Request Reply α)
    (f : α → Program Request Reply β) :
    (p >>= f).serve handler number =
      p.serve handler number >>= fun served => (f served.1).serve handler served.2 := by
  induction p generalizing number with
  | done value => rfl
  | ask r next ih => simp [ih]

end Serve

end Program

end EventSourcing
