import Parley.Proofs.Talk.Chain
import Parley.Proofs.Talk.Run

/-!
# What Follows an End

A closing statement ends the run of the whole body, however deep it lies. What stands behind it
makes no difference then: neither the rest of its own body, nor the later clauses and statements of
the bodies around it. We prove:

* `Walk.execBody_of_reaches`: a run that comes to a place ends with the closing statement there;
* `Walk.execBody_ended`: a run that ends has come to the place of a closing statement;
* `Walk.execBody_after`: what was produced before a run stays in front of what it produces;
* `Walk.end_is_final`: the laws for whole runs, and for bodies put together from two.
-/

namespace Parley

/-- The turn with what an earlier turn has produced in front of it. -/
def Turn.after (turn earlier : Turn) : Turn :=
  { turn with
    lines := earlier.lines ++ turn.lines
    options := earlier.options ++ turn.options
    effects := earlier.effects ++ turn.effects }

/-! ## Coming to a place -/

namespace Place

/-- A run comes to a place: all that stands in front of it leads on, and at every depth the clause
that it lies in is the first one whose test is true. -/
def Reaches (env : Environment) : Place → Walk → Walk → Prop
  | here before _, w, u => Walk.execBody env before w = (.next, u)
  | inside before earlier test inner _ _, w, u =>
    ∃ v, Walk.execBody env before w = (.next, v) ∧
      (∀ c ∈ earlier, c.test.IsFalse (v.lookup env)) ∧ test.IsTrue (v.lookup env) ∧
      inner.Reaches env (Walk.past env earlier v) u

/-- Whether a run comes to a place depends on what stands in front of it. -/
theorem reaches_front {env : Environment} (place : Place) {w u : Walk} :
    place.front.Reaches env w u ↔ place.Reaches env w u := by
  induction place generalizing w with
  | here before after => rfl
  | inside before earlier test inner later after ih =>
    simp only [front, Reaches, ih]

/-- The place with one more statement in front. -/
def push (s : Statement) : Place → Place
  | here before after => here (s :: before) after
  | inside before earlier test inner later after =>
    inside (s :: before) earlier test inner later after

theorem fill_push (s : Statement) (place : Place) (filling : List Statement) :
    (place.push s).fill filling = s :: place.fill filling := by
  cases place <;> rfl

end Place

namespace Walk

variable {env : Environment} {w u v : Walk}

/-- A statement that leads on can be put in front. -/
theorem reaches_push {s : Statement} {place : Place} (hs : exec env s w = (.next, v))
    (h : place.Reaches env v u) : (place.push s).Reaches env w u := by
  have hfront : ∀ before, execBody env (s :: before) w = execBody env before v := by
    intro before
    rw [execBody_cons, hs, andThen_next]
  cases place with
  | here before after => exact (hfront before).trans h
  | inside before earlier test inner later after =>
    obtain ⟨x, hbefore, hinside⟩ := h
    exact ⟨x, (hfront before).trans hbefore, hinside⟩

theorem exec_finish (env : Environment) (message : Option Phrase) (u : Walk) :
    ∃ v, exec env (.finish message) u = (.ended, v) := by
  cases message with
  | none => exact ⟨u, rfl⟩
  | some text => exact ⟨u.say text, rfl⟩

/-- A run that comes to the place of a closing statement ends there. -/
theorem execBody_of_reaches {place : Place} (h : place.Reaches env w u) (message : Option Phrase) :
    execBody env (place.fill [.finish message]) w = exec env (.finish message) u := by
  obtain ⟨x, hend⟩ := exec_finish env message u
  induction place generalizing w with
  | here before after =>
    have hbefore : execBody env before w = (.next, u) := h
    rw [Place.fill, List.append_assoc, execBody_append, hbefore, andThen_next,
      List.singleton_append, execBody_cons, hend, andThen_ended]
  | inside before earlier test inner later after ih =>
    obtain ⟨y, hbefore, hpassed, htest, hinner⟩ := h
    -- the run goes into the clause of the place, and its end is the end of the cond as well
    rw [Place.fill, execBody_append, hbefore, andThen_next, execBody_cons, exec,
      execClauses_past hpassed, execClauses_of_isTrue (by exact htest), ih hinner, hend,
      andThen_ended]

mutual

theorem exec_ended : ∀ (s : Statement) (rest : List Statement) {w v : Walk},
    exec env s w = (.ended, v) →
      ∃ (place : Place) (message : Option Phrase) (u : Walk),
        s :: rest = place.fill [.finish message] ∧ place.Reaches env w u
  | .cond clauses, rest, w, v, h => by
    rw [exec] at h
    obtain ⟨earlier, t, inner, message, later, u, rfl, hpassed, ht, hinner⟩ :=
      execClauses_ended clauses h
    exact ⟨.inside [] earlier t inner later rest, message, u, rfl, w, rfl, hpassed, ht, hinner⟩
  | .finish message, rest, w, v, _ => ⟨.here [] rest, message, w, rfl, rfl⟩
  -- no other statement ends a run
  | .say text, _, w, v, h => by
    rw [exec] at h
    cases h
  | .give item message, _, w, v, h => by
    rw [exec] at h
    cases h
  | .spend amount, _, w, v, h => by
    rw [exec] at h
    cases h
  | .offer item, _, w, v, h => by
    rw [exec] at h
    cases h
  | .option label guard body, _, w, v, h => by
    rw [exec] at h
    split at h <;> cases h
  | .assign name value, _, w, v, h => by
    rw [exec] at h
    split at h <;> cases h

theorem execClauses_ended : ∀ (clauses : List Clause) {w v : Walk},
    execClauses env clauses w = (.ended, v) →
      ∃ (earlier : List Clause) (t : Test) (inner : Place) (message : Option Phrase)
          (later : List Clause) (u : Walk),
        clauses = earlier ++ .mk t (inner.fill [.finish message]) :: later ∧
        (∀ c ∈ earlier, c.test.IsFalse (w.lookup env)) ∧ t.IsTrue (w.lookup env) ∧
        inner.Reaches env (past env earlier w) u
  | [], w, v, h => by
    rw [execClauses] at h
    cases h
  | .mk t body :: rest, w, v, h => by
    rcases t.isTrue_or_isFalse_or_breaks (w.lookup env) with htrue | hfalse | ⟨fault, hbreaks⟩
    · rw [execClauses_of_isTrue htrue] at h
      obtain ⟨inner, message, u, rfl, hinner⟩ := execBody_ended body h
      exact ⟨[], t, inner, message, rest, u, rfl, List.forall_mem_nil _, htrue, by simpa [past]⟩
    · -- a clause that is passed stands in front of the place
      rw [execClauses_of_isFalse hfalse] at h
      obtain ⟨earlier, t', inner, message, later, u, rfl, hpassed, htrue, hinner⟩ :=
        execClauses_ended rest h
      refine ⟨.mk t body :: earlier, t', inner, message, later, u, rfl, ?_, htrue, ?_⟩
      · exact List.forall_mem_cons.2 ⟨hfalse, hpassed⟩
      · rwa [past_cons]
    · rw [execClauses_of_breaks hbreaks] at h
      cases h

/-- A run that ends has come to the place of a closing statement. -/
theorem execBody_ended : ∀ (body : List Statement) {w v : Walk},
    execBody env body w = (.ended, v) →
      ∃ (place : Place) (message : Option Phrase) (u : Walk),
        body = place.fill [.finish message] ∧ place.Reaches env w u
  | [], w, v, h => by
    rw [execBody] at h
    cases h
  | s :: rest, w, v, h => by
    rw [execBody_cons] at h
    rcases hfirst : exec env s w with ⟨flow, x⟩
    rw [hfirst] at h
    cases flow with
    | next =>
      obtain ⟨place, message, u, rfl, hplace⟩ := execBody_ended rest h
      exact ⟨place.push s, message, u, (Place.fill_push ..).symm, reaches_push hfirst hplace⟩
    | ended => exact exec_ended s rest hfirst
    | failed fault => cases h

end

/-! ## Runs behind one another -/

/-- The run with what an earlier run has produced and noted in front of it. Stage and dice are its
own. -/
def after (w earlier : Walk) : Walk :=
  { w with turn := w.turn.after earlier.turn, notices := earlier.notices ++ w.notices }

section After

variable (p w : Walk)

/-- What was produced before is not seen by the script. -/
@[simp]
theorem lookup_after : (w.after p).lookup env = w.lookup env := rfl

@[simp]
theorem note_after (notice : Notice) : (w.after p).note notice = (w.note notice).after p := by
  simp [note, after]

@[simp]
theorem say_after (phrase : Phrase) : (w.after p).say phrase = (w.say phrase).after p := by
  simp [say, after, Turn.after]

@[simp]
theorem record_after (effect : Effect) : (w.after p).record effect = (w.record effect).after p := by
  simp [record, after, Turn.after]

@[simp]
theorem offerChoice_after (choice : Choice) :
    (w.after p).offerChoice choice = (w.offerChoice choice).after p := by
  simp [offerChoice, after, Turn.after]

@[simp]
theorem test_after (e : Expr) :
    (w.after p).test env e = ((w.test env e).1, (w.test env e).2.after p) := by
  rw [test, test, lookup_after]
  split
  · rfl
  · rw [note_after]
  · rfl

@[simp]
theorem holds_after (t : Test) :
    (w.after p).holds env t = ((w.holds env t).1, (w.holds env t).2.after p) := by
  cases t with
  | otherwise => rfl
  | expr e => exact test_after p w e

@[simp]
theorem allows_after (guard : Option Expr) :
    (w.after p).allows env guard = ((w.allows env guard).1, (w.allows env guard).2.after p) := by
  cases guard with
  | none => rfl
  | some e => exact test_after p w e

end After

mutual

theorem exec_after (p : Walk) : ∀ (s : Statement) (w : Walk),
    exec env s (w.after p) = ((exec env s w).1, (exec env s w).2.after p)
  | .cond clauses, w => by
    rw [exec, exec]
    exact execClauses_after p clauses w
  | .say text, w => by
    rw [exec, exec, say_after]
  | .option label guard body, w => by
    rw [exec, exec, allows_after]
    generalize w.allows env guard = answer
    obtain ⟨answer, x⟩ := answer
    match answer with
    | .error fault => rfl
    | .ok true => exact Prod.ext rfl (offerChoice_after p x _)
    | .ok false => rfl
  | .assign name value, w => by
    -- an assignment sees the stage and the environment, which are the same on both sides
    have hassign : (w.after p).assign env name value = w.assign env name value := rfl
    rw [exec, exec, hassign]
    split
    · rfl
    · rw [note_after]
    · rw [note_after]
    · rfl
  | .give item message, w => by
    -- the dice have spoken the message when the gift is recorded
    have hrecord := record_after p { w with dice := (w.dice.speak message).2 }
      (.give item (w.dice.speak message).1)
    rw [exec, exec]
    exact congrArg (Prod.mk Flow.next) hrecord
  | .spend amount, w => by
    rw [exec, exec, record_after]
  | .offer item, w => by
    rw [exec, exec, record_after]
  | .finish none, w => rfl
  | .finish (some message), w => by
    rw [exec, exec, say_after]

theorem execClauses_after (p : Walk) : ∀ (clauses : List Clause) (w : Walk),
    execClauses env clauses (w.after p) =
      ((execClauses env clauses w).1, (execClauses env clauses w).2.after p)
  | [], w => rfl
  | .mk t body :: rest, w => by
    rw [execClauses, execClauses, holds_after]
    generalize w.holds env t = answer
    obtain ⟨answer, x⟩ := answer
    match answer with
    | .error fault => rfl
    | .ok true => exact execBody_after p body x
    | .ok false => exact execClauses_after p rest x

/-- What was produced before a run stays in front of what it produces, and changes nothing about it.
-/
theorem execBody_after (p : Walk) : ∀ (body : List Statement) (w : Walk),
    execBody env body (w.after p) = ((execBody env body w).1, (execBody env body w).2.after p)
  | [], w => rfl
  | s :: rest, w => by
    rw [execBody_cons, execBody_cons, exec_after p s w]
    generalize exec env s w = answer
    obtain ⟨flow, x⟩ := answer
    match flow with
    | .next => exact execBody_after p rest x
    | .ended => rfl
    | .failed fault => rfl

end

/-! ## Whole runs -/

/-- The answer of a run that goes no further. -/
def conclude : Flow × Walk → Except Fault Turn × Walk
  | (.next, w) => (.ok w.turn, w)
  | (.ended, w) => (.ok { w.turn with ended := true }, w)
  | (.failed fault, w) => (.error fault, w)

/-- Runs a body on a stage, which may hold writes already. -/
def runOn (env : Environment) (stage : Stage) (dice : Dice) (body : List Statement) :
    Except Fault Turn × Walk :=
  conclude (execBody env body { turn := { stage }, dice })

theorem run_eq_conclude (env : Environment) (viewer : Option String) (dice : Dice)
    (body : List Statement) :
    run env viewer dice body = conclude (execBody env body (start viewer dice)) := by
  rw [run]
  rfl

theorem conclude_after (p : Walk) (flow : Flow) (w : Walk) :
    conclude (flow, w.after p) =
      ((conclude (flow, w)).1.map fun turn => turn.after p.turn,
        (conclude (flow, w)).2.after p) := by
  cases flow <;> rfl

/-- No statement marks the turn as ended, this is done when the run is over. -/
theorem execBody_notEnded (env : Environment) (body : List Statement)
    (h : w.turn.ended = false) : (execBody env body w).2.turn.ended = false := by
  refine execBody_induction (P := fun w => w.turn.ended = false) ?_ body h
  intro x y hstep hx
  cases hstep <;> exact hx

/-- A run is what a run on its own stage and dice produces, behind what it has produced so far. -/
theorem eq_after (h : w.turn.ended = false) :
    w = ({ turn := { stage := w.turn.stage }, dice := w.dice } : Walk).after w := by
  obtain ⟨⟨stage, lines, options, effects, ended⟩, dice, notices⟩ := w
  obtain rfl : ended = false := h
  simp [after, Turn.after]

/-- A run behind one that has led on. -/
theorem conclude_execBody (h : w.turn.ended = false) (body : List Statement) :
    conclude (execBody env body w) =
      ((runOn env w.turn.stage w.dice body).1.map fun turn => turn.after w.turn,
        (runOn env w.turn.stage w.dice body).2.after w) := by
  calc conclude (execBody env body w)
      = conclude (execBody env body
          (({ turn := { stage := w.turn.stage }, dice := w.dice } : Walk).after w)) := by
        rw [← eq_after h]
    _ = _ := by
        rw [execBody_after, conclude_after]
        rfl

variable {viewer : Option String} {dice : Dice}

/-- A run that comes to the place of a closing statement ends, whatever stands behind that place. -/
theorem run_of_reaches {place : Place} (h : place.Reaches env (start viewer dice) u)
    (message : Option Phrase) :
    ∃ turn w, turn.ended = true ∧ ∀ place' : Place, place'.front = place.front →
      run env viewer dice (place'.fill [.finish message]) = (.ok turn, w) := by
  obtain ⟨v, hend⟩ := exec_finish env message u
  refine ⟨{ v.turn with ended := true }, v, rfl, fun place' hfront => ?_⟩
  -- the other place is come to as well, since the same stands in front of it
  have h' : place'.Reaches env (start viewer dice) u := by
    rw [← Place.reaches_front, hfront, Place.reaches_front]
    exact h
  rw [run_eq_conclude, execBody_of_reaches h', hend, conclude]

/-- A run whose turn is marked as ended has come to the place of a closing statement. -/
theorem reaches_of_run {body : List Statement} {turn : Turn}
    (h : run env viewer dice body = (.ok turn, w)) (hended : turn.ended = true) :
    ∃ (place : Place) (message : Option Phrase) (u : Walk),
      body = place.fill [.finish message] ∧ place.Reaches env (start viewer dice) u := by
  have hopen := execBody_notEnded env (w := start viewer dice) body rfl
  rw [run_eq_conclude] at h
  rcases hbody : execBody env body (start viewer dice) with ⟨flow, v⟩
  rw [hbody] at h hopen
  cases flow with
  | next =>
    -- the turn would not be marked
    obtain rfl : v.turn = turn := Except.ok.inj (congrArg Prod.fst h)
    exact absurd (hopen.symm.trans hended) Bool.false_ne_true
  | ended => exact execBody_ended body hbody
  | failed fault => cases h

/-- The run of a body that is put together from two. -/
theorem run_append (a b : List Statement) :
    run env viewer dice (a ++ b) =
      match run env viewer dice a with
      | (.error fault, w) => (.error fault, w)
      | (.ok turn, w) =>
        if turn.ended then (.ok turn, w)
        else ((runOn env turn.stage w.dice b).1.map fun later => later.after turn,
          (runOn env turn.stage w.dice b).2.after w) := by
  have hopen := execBody_notEnded env (w := start viewer dice) a rfl
  rw [run_eq_conclude, run_eq_conclude, execBody_append]
  rcases hfirst : execBody env a (start viewer dice) with ⟨flow, v⟩
  rw [hfirst] at hopen
  cases flow with
  | next =>
    replace hopen : v.turn.ended = false := hopen
    rw [andThen_next, conclude_execBody hopen b]
    show _ = if v.turn.ended then _ else _
    rw [hopen, if_neg Bool.false_ne_true]
  | ended => rfl
  | failed fault => rfl

/-- Nothing behind an end that is reached makes a difference. A run that comes to the place of a
closing statement ends, and it produces the same turn, with the same rolls and notices, whatever
stands behind that place at any depth; and each run that ends has come to such a place. If a body is
put together from two, then the run of the first is all where it ends or fails. Otherwise the second
is run on the stage that the first has left, and what it produces goes behind. -/
theorem end_is_final (env : Environment) (viewer : Option String) (dice : Dice) :
    (∀ (place : Place) (message : Option Phrase) (u : Walk),
      place.Reaches env (start viewer dice) u →
      ∃ turn w, turn.ended = true ∧ ∀ place' : Place, place'.front = place.front →
        run env viewer dice (place'.fill [.finish message]) = (.ok turn, w)) ∧
    (∀ (body : List Statement) (turn : Turn) (w : Walk),
      run env viewer dice body = (.ok turn, w) → turn.ended = true →
      ∃ (place : Place) (message : Option Phrase) (u : Walk),
        body = place.fill [.finish message] ∧ place.Reaches env (start viewer dice) u) ∧
    ∀ a b : List Statement, run env viewer dice (a ++ b) =
      match run env viewer dice a with
      | (.error fault, w) => (.error fault, w)
      | (.ok turn, w) =>
        if turn.ended then (.ok turn, w)
        else ((runOn env turn.stage w.dice b).1.map fun later => later.after turn,
          (runOn env turn.stage w.dice b).2.after w) := by
  refine ⟨?_, ?_, ?_⟩
  · intro place message u hreaches
    exact run_of_reaches hreaches message
  · intro body turn w hrun hended
    exact reaches_of_run hrun hended
  · intro a b
    exact run_append a b

/-- A place in the catch-all of a cond, with something behind it at each depth. -/
def farewell (rest : List Statement) (later : List Clause) (after : List Statement) : Place :=
  .inside [.say [.run "Well met."]] [.mk (.expr (.literal (.bool false))) [.spend 1]] .otherwise
    (.here [.offer "charm"] rest) later after

/-- What stands behind a farewell is neither said nor charged, and from the end of the run it can be
told that a farewell was reached. -/
theorem end_is_final_of_farewell :
    ∃ turn w, turn.ended = true ∧ turn.lines = ["Well met.", "Farewell."] ∧
      turn.effects = [.offer "charm"] ∧
      run default (some "holt") { source := .scripted [] }
        ((farewell [] [] []).fill [.finish (some [.run "Farewell."])]) = (.ok turn, w) ∧
      run default (some "holt") { source := .scripted [] }
        ((farewell [.spend 5] [.mk .otherwise [.spend 7]] [.say [.run "Wait!"]]).fill
          [.finish (some [.run "Farewell."])]) = (.ok turn, w) ∧
      ∃ (place : Place) (message : Option Phrase) (u : Walk),
        (farewell [] [] []).fill [.finish (some [.run "Farewell."])] =
          place.fill [.finish message] ∧
        place.Reaches default (start (some "holt") { source := .scripted [] }) u := by
  have hreaches : ∃ u, (farewell [] [] []).Reaches default
      (start (some "holt") { source := .scripted [] }) u := by
    refine ⟨_, _, rfl, ?_, trivial, rfl⟩
    exact List.forall_mem_singleton.2 (.inl ⟨.value (.bool false), rfl, rfl⟩)
  obtain ⟨u, hu⟩ := hreaches
  obtain ⟨hplace, hended, -⟩ := end_is_final default (some "holt") { source := .scripted [] }
  obtain ⟨turn, w, hend, hrun⟩ := hplace (farewell [] [] []) (some [.run "Farewell."]) u hu
  -- what is said and recorded is told from the run with nothing behind the place
  have hproduced : ((run default (some "holt") { source := .scripted [] }
      ((farewell [] [] []).fill [.finish (some [.run "Farewell."])])).1.toOption.map fun t =>
        (t.lines, t.effects)) = some (["Well met.", "Farewell."], [.offer "charm"]) := by
    decide +kernel
  rw [hrun (farewell [] [] []) rfl] at hproduced
  obtain ⟨hlines, heffects⟩ := Prod.mk.inj (Option.some.inj hproduced)
  exact ⟨turn, w, hend, hlines, heffects, hrun _ rfl, hrun _ rfl,
    hended _ turn w (hrun _ rfl) hend⟩

end Walk

end Parley
