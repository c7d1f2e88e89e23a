import Parley.Proofs.Library.Lint
import Parley.Proofs.Talk.Reads

/-!
# What Lint Says about Reads

Lint goes over the tests, guards and assigned values of a script and reports each variable in them
that is not declared. A run looks up nothing else: neither the check of an assignment nor the second
look at a variable that is copied goes beyond them. We prove:

* `Lint.declared_of_clean`: if lint reports no undeclared read, all that the statements of a script
  read is declared;
* `Lint.run_eq_of_clean`: then two states that differ in undeclared variables only, which restored
  state may hold, cannot be told apart by running a body of the script.
-/

namespace Parley

/-- What is held under an undeclared name is seen under no declared one. -/
theorem Environment.lookup_insert_of_undeclared (env : Environment) {name k : String}
    (hname : env.manifest.contains name = false) (hk : env.manifest.contains k = true)
    (viewer : Option String) (x : Stored) :
    lookup { env with globals := env.globals.insert name x } viewer k = env.lookup viewer k := by
  have hne : k ≠ name := by
    rintro rfl
    exact absurd (hk.symm.trans hname) Bool.noConfusion
  simp only [lookup, OrderedMap.get?_insert, if_neg hne]
  rfl

namespace Lint

variable {m : Manifest} {known : List String} {script : Script} {s : Statement}

/-- The undeclared reads of every expression of a statement are reported with the statement. -/
theorem expr_subset_statement {e : Expr} (he : e ∈ s.exprs) :
    Lint.expr m e ⊆ statement m known s := by
  cases s with
  | cond clauses =>
    obtain ⟨⟨t, body⟩, hc, hce⟩ := List.mem_filterMap.1 he
    intro cause hcause
    refine List.mem_flatMap.2 ⟨.mk t body, hc, ?_⟩
    cases t with
    | otherwise => cases hce
    | expr e' =>
      obtain rfl : e' = e := Option.some.inj hce
      exact hcause
  | option label guard body =>
    obtain rfl := Option.mem_toList.1 he
    exact List.subset_append_right _ _
  | assign name value =>
    exact List.mem_singleton.1 he ▸ List.subset_append_left _ _
  | _ => cases he

/-- No read of an undeclared variable is reported for a script. -/
def ReadsDeclared (m : Manifest) (known : List String) (script : Script) : Prop :=
  ∀ issue ∈ Lint.script m known script, ∀ name, issue.cause ≠ .undeclaredRead name

/-- If no undeclared read is reported, whatever a statement of the script reads is declared. -/
theorem declared_of_clean (h : ReadsDeclared m known script) (hs : s ∈ script.walk) {name : String}
    (hname : name ∈ s.reads) : m.contains name = true := by
  by_contra hundeclared
  obtain ⟨e, he, hread⟩ := List.mem_flatMap.1 hname
  have hfound : .undeclaredRead name ∈ Lint.expr m e := by
    refine List.mem_map.2 ⟨name, List.mem_filter.2 ⟨hread, ?_⟩, rfl⟩
    simpa using hundeclared
  exact h _ (issue_of_mem_statement hs (expr_subset_statement he hfound)) name rfl

/-- The check for undeclared reads is sound for runs. If lint reports none for a script, then two
states with the same declarations that hold the same under all declared names, and anything else
under others, cannot be told apart: whoever speaks and whatever is rolled, the body of the script
and those of its options produce the same turn or fault, with the same rolls and notices. -/
theorem run_eq_of_clean {a b : Environment} (hclean : ReadsDeclared a.manifest known script)
    (hmanifest : b.manifest = a.manifest) {viewer : Option String}
    (hagree : ∀ name, a.manifest.contains name = true →
      b.lookup viewer name = a.lookup viewer name)
    {body : List Statement} (hbody : body ∈ script.bodies) (dice : Dice) :
    Walk.run b viewer dice body = Walk.run a viewer dice body := by
  refine Walk.run_congr_of_reads hmanifest (fun s hs name hname => ?_) dice
  exact hagree name (declared_of_clean hclean (Script.mem_walk_of_mem_bodies hbody hs) hname)

/-- The ferryman remembers who has paid. -/
def ferryScopes : Manifest :=
  ⟨OrderedMap.empty.insert "paid" (.make "paid" .speaker .bool)⟩

/-- Quest state at the ferry, with coins that nobody has declared. -/
def ferryWithCoins (coins : Stored) : Environment :=
  { manifest := ferryScopes, globals := OrderedMap.empty.insert "COINS" coins }

/-- Coins that nobody has declared make no difference to the ferryman, however many there are. -/
theorem run_eq_of_clean_of_ferry :
    ∃ script, Script.parse Script.ferryText "ferryman" = .ok script ∧ script.bodies.length = 2 ∧
      ReadsDeclared ferryScopes [] script ∧
      ∀ body ∈ script.bodies, ∀ coins dice,
        Walk.run (ferryWithCoins coins) (some "charon") dice body =
          Walk.run { manifest := ferryScopes } (some "charon") dice body := by
  have hread : ((Script.parse Script.ferryText "ferryman").toOption.map fun script =>
      (script.bodies.length, Lint.script ferryScopes [] script)) = some (2, []) := by
    decide +kernel
  obtain ⟨script, hparse, hscript⟩ := exists_of_toOption_map hread
  obtain ⟨hlength, hissues⟩ := Prod.mk.inj hscript
  have hclean : ReadsDeclared ferryScopes [] script := by
    intro issue hissue
    rw [hissues] at hissue
    cases hissue
  refine ⟨script, hparse, hlength, hclean, fun body hbody coins dice => ?_⟩
  have hagree : ∀ name, ferryScopes.contains name = true →
      (ferryWithCoins coins).lookup (some "charon") name =
        Environment.lookup { manifest := ferryScopes } (some "charon") name := by
    -- the name of the coins is none of the declared ones
    have hcoins : ferryScopes.contains "COINS" = false := by decide
    intro name hname
    exact Environment.lookup_insert_of_undeclared { manifest := ferryScopes } hcoins hname
      (some "charon") coins
  exact run_eq_of_clean (a := { manifest := ferryScopes }) (b := ferryWithCoins coins) hclean rfl
    hagree hbody dice

end Lint

end Parley
