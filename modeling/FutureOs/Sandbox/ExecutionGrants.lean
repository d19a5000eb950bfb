import FutureOs.Sandbox.Platform

/-!
# Grants for a single command

A command may be granted files of its own.  `withExecutionGrants` puts them into a copy of the
rules, between the overrides and the guards, with all denials of the original on top.  Session
rules are shared: a rule set only names the cell they are in, and the copy gets a cell of its
own.
-/

namespace FutureOs
namespace Sandbox

/-- `WriteScope`. -/
inductive WriteScope
  | file
  | subtree
deriving DecidableEq

structure FileTarget where
  path : PathBuf
  scope : WriteScope
  access : Access
deriving DecidableEq

/-- What is in the cells of `SessionRules`. -/
abbrev SessionCells : Type := List (List Rule)

/-- The rules of a sandbox that is in use. -/
structure LiveRules where
  workspace : PathBuf
  tempRoots : List PathBuf
  overrides : List Rule
  guards : List Rule
  execution : List Rule
  /-- The cell of the session rules. -/
  session : Nat
  workspaceRules : List Rule
  userRules : List Rule
  resolutionErrors : List String
deriving DecidableEq

namespace FileTarget

/-- The target is about the path. -/
def covers (platform : Platform) (target : FileTarget) (path : PathBuf) (op : Op) : Bool :=
  target.access.covers op &&
    match target.scope with
    | .file => path = target.path
    | .subtree => platform.pathWithin path target.path

/-- The rule of a grant. -/
def rule (target : FileTarget) : Rule where
  matcher :=
    match target.scope with
    | .file => .literal target.path
    | .subtree => .subtree target.path target.path
  access := target.access
  decision := .allow

theorem applies_rule (platform : Platform) (target : FileTarget) (path : PathBuf) (op : Op) :
    platform.applies target.rule path op = target.covers platform path op := by
  cases hscope : target.scope with
  | file =>
      simp [Platform.applies, rule, covers, hscope]
  | subtree =>
      simp [Platform.applies, rule, covers, hscope]

end FileTarget

namespace LiveRules

def sessionRules (cells : SessionCells) (live : LiveRules) : List Rule :=
  (cells[live.session]?).getD []

/-- `profile_layers`. -/
def profileLayers (cells : SessionCells) (live : LiveRules) : List (List Rule) :=
  [live.overrides, live.execution, live.guards, live.sessionRules cells, live.workspaceRules,
    live.userRules]

/-- `snapshot`. -/
def snapshot (cells : SessionCells) (live : LiveRules) : RuleSet where
  workspace := live.workspace
  tempRoots := live.tempRoots
  layers := live.profileLayers cells
  resolutionErrors := live.resolutionErrors

/-- `evaluate`. -/
def evaluate (platform : Platform) (cells : SessionCells) (live : LiveRules) (path : PathBuf)
    (op : Op) : Decision :=
  (live.snapshot cells).evaluateOn platform path op

/-- `explicitly_denied`. -/
def explicitlyDenied (platform : Platform) (cells : SessionCells) (live : LiveRules)
    (path : PathBuf) (op : Op) : Bool :=
  (live.profileLayers cells).flatten.any fun rule =>
    rule.decision = .deny && platform.applies rule path op

/-- The denials of all layers, in their order. -/
def denials (cells : SessionCells) (live : LiveRules) : List Rule :=
  (live.profileLayers cells).flatMap fun layer => layer.filter fun rule => rule.decision = .deny

/-- `with_execution_grants`: the cells behind it, and the copy. -/
def withExecutionGrants (cells : SessionCells) (live : LiveRules) (targets : List FileTarget) :
    SessionCells × LiveRules :=
  let copied := { live with session := cells.length }
  (cells ++ [live.sessionRules cells],
    if targets = [] then
      copied
    else
      { copied with
        overrides := live.overrides ++ live.denials cells
        execution := targets.map FileTarget.rule })

/-- The rules without any grant. -/
def ungranted (live : LiveRules) : LiveRules :=
  { live with execution := [] }

end LiveRules

/-- Session rules are changed by whoever holds their cell. -/
def changeCells (changes : List (Nat × (List Rule → List Rule))) (cells : SessionCells) :
    SessionCells :=
  changes.foldl (fun cells change => cells.modify change.1 change.2) cells

section Grants

variable {platform : Platform}
variable {cells : SessionCells}
variable {live : LiveRules}
variable {targets : List FileTarget}
variable {path : PathBuf}
variable {op : Op}

namespace LiveRules

/-- Only the cell of the rules counts. -/
theorem evaluate_congr
    {later : SessionCells}
    (hcell : later[live.session]? = cells[live.session]?) :
    live.evaluate platform later path op = live.evaluate platform cells path op := by
  have hsnapshot : live.snapshot later = live.snapshot cells := by
    simp [snapshot, profileLayers, sessionRules, hcell]
  rw [evaluate, hsnapshot, evaluate]

theorem mem_denials {rule : Rule} :
    rule ∈ live.denials cells ↔
      rule ∈ (live.profileLayers cells).flatten ∧ rule.decision = .deny := by
  simp only [denials, List.mem_flatMap, List.mem_filter, List.mem_flatten, decide_eq_true_eq]
  constructor
  · rintro ⟨layer, hlayer, hrule, hdeny⟩
    exact ⟨⟨layer, hlayer, hrule⟩, hdeny⟩
  · rintro ⟨⟨layer, hlayer, hrule⟩, hdeny⟩
    exact ⟨layer, hlayer, hrule, hdeny⟩

theorem explicitlyDenied_eq_false :
    live.explicitlyDenied platform cells path op = false ↔
      ∀ rule ∈ live.denials cells, platform.applies rule path op = false := by
  rw [explicitlyDenied, List.any_eq_false]
  constructor
  · intro h rule hrule
    obtain ⟨hlayers, hdeny⟩ := mem_denials.mp hrule
    simpa [hdeny] using h rule hlayers
  · intro h rule hrule
    rw [Bool.not_eq_true, Bool.and_eq_false_iff, decide_eq_false_iff_not]
    by_cases hdeny : rule.decision = .deny
    · exact .inr (h rule (mem_denials.mpr ⟨hrule, hdeny⟩))
    · exact .inl hdeny

theorem mem_denials_of_override
    {rule : Rule}
    (hoverrides : ∀ rule ∈ live.overrides, rule.decision = .deny)
    (hrule : rule ∈ live.overrides) :
    rule ∈ live.denials cells :=
  mem_denials.mpr
    ⟨List.mem_flatten.mpr ⟨live.overrides, by simp [profileLayers], hrule⟩,
      hoverrides rule hrule⟩

/-- Without an override that applies the layers below decide. -/
theorem evaluate_of_overrides_none
    (hnone : live.overrides.find? (fun rule => platform.applies rule path op) = none) :
    live.evaluate platform cells path op =
      { live with overrides := [] }.evaluate platform cells path op := by
  simp only [evaluate, RuleSet.evaluateOn, RuleSet.rules, snapshot, profileLayers,
    sessionRules, List.flatten_cons, List.find?_append, hnone, List.find?_nil,
    Option.none_or, List.flatten_nil]
  rfl

/-- A denial on top decides. -/
theorem evaluate_of_override_denies
    (hoverrides : ∀ rule ∈ live.overrides, rule.decision = .deny)
    {rule : Rule}
    (hrule : rule ∈ live.overrides)
    (happlies : platform.applies rule path op = true) :
    live.evaluate platform cells path op = .deny := by
  cases hfound : live.overrides.find? fun rule => platform.applies rule path op with
  | none =>
      exact absurd happlies (List.find?_eq_none.mp hfound rule hrule)
  | some first =>
      simp only [evaluate, RuleSet.evaluateOn, RuleSet.rules, snapshot, profileLayers,
        List.flatten_cons, List.find?_append, hfound, Option.some_or]
      exact hoverrides first (List.mem_of_find?_eq_some hfound)

/-- With no denial in the way, a grant allows what it covers and nothing else. -/
theorem evaluate_granted
    (hempty : live.overrides = []) :
    { live with execution := targets.map FileTarget.rule }.evaluate platform cells path op =
        .allow ↔
      live.ungranted.evaluate platform cells path op = .allow ∨
        ∃ target ∈ targets, target.covers platform path op = true := by
  cases hfound : (targets.map FileTarget.rule).find? fun rule =>
      platform.applies rule path op with
  | none =>
      have hnone : ¬ ∃ target ∈ targets, target.covers platform path op = true := by
        rintro ⟨target, htarget, hcovers⟩
        have happlies := List.find?_eq_none.mp hfound target.rule (List.mem_map_of_mem htarget)
        exact happlies (by rwa [FileTarget.applies_rule])
      rw [or_iff_left hnone]
      simp only [evaluate, RuleSet.evaluateOn, RuleSet.rules, snapshot, profileLayers,
        ungranted, sessionRules, hempty, List.flatten_cons, List.find?_append, hfound,
        List.find?_nil, Option.none_or]
      exact Iff.rfl
  | some first =>
      obtain ⟨target, htarget, rfl⟩ := List.mem_map.mp (List.mem_of_find?_eq_some hfound)
      have hcovers : target.covers platform path op = true := by
        rw [← FileTarget.applies_rule]
        exact List.find?_some (p := fun rule => platform.applies rule path op) hfound
      refine iff_of_true ?_ (.inr ⟨target, htarget, hcovers⟩)
      simp only [evaluate, RuleSet.evaluateOn, RuleSet.rules, snapshot, profileLayers, hempty,
        List.flatten_cons, List.find?_append, hfound, List.find?_nil, Option.none_or,
        Option.some_or]
      rfl

/-- What a copy with grants allows: nothing that is denied anywhere, and of the rest what the
rules allow without a grant, and the targets. -/
theorem withExecutionGrants_allows
    (hoverrides : ∀ rule ∈ live.overrides, rule.decision = .deny)
    (htargets : targets ≠ []) :
    (live.withExecutionGrants cells targets).2.evaluate platform
        (live.withExecutionGrants cells targets).1 path op = .allow ↔
      live.explicitlyDenied platform cells path op = false ∧
        (live.ungranted.evaluate platform cells path op = .allow ∨
          ∃ target ∈ targets, target.covers platform path op = true) := by
  simp only [withExecutionGrants, if_neg htargets]
  have hdenials : ∀ rule ∈ live.overrides ++ live.denials cells, rule.decision = .deny := by
    intro rule hrule
    rcases List.mem_append.mp hrule with h | h
    · exact hoverrides rule h
    · exact (mem_denials.mp h).2
  by_cases hdenied : live.explicitlyDenied platform cells path op = false
  · rw [and_iff_right hdenied]
    have hquiet := explicitlyDenied_eq_false.mp hdenied
    have hnone : ∀ rules : List Rule, (∀ rule ∈ rules, rule ∈ live.denials cells) →
        rules.find? (fun rule => platform.applies rule path op) = none := by
      intro rules hrules
      refine List.find?_eq_none.mpr fun rule hrule => ?_
      rw [hquiet rule (hrules rule hrule)]
      exact Bool.false_ne_true
    have hoverridden : ∀ rule ∈ live.overrides ++ live.denials cells, rule ∈ live.denials cells := by
      intro rule hrule
      rcases List.mem_append.mp hrule with h | h
      · exact mem_denials_of_override hoverrides h
      · exact h
    rw [evaluate_of_overrides_none (hnone _ hoverridden)]
    -- The cell of the copy holds what the cell of the original holds.
    have hcopied : ∀ bare : LiveRules, bare.session = cells.length →
        bare.evaluate platform (cells ++ [live.sessionRules cells]) path op =
          { bare with session := live.session }.evaluate platform cells path op := by
      intro bare hbare
      simp only [evaluate, RuleSet.evaluateOn, RuleSet.rules, snapshot, profileLayers,
        sessionRules, hbare, List.getElem?_concat_length, Option.getD_some]
    rw [hcopied _ rfl]
    have hbare : live.ungranted.overrides.find? (fun rule => platform.applies rule path op) = none :=
      hnone _ fun rule hrule => mem_denials_of_override hoverrides hrule
    rw [evaluate_of_overrides_none hbare]
    have hgranted := @evaluate_granted platform cells { live with overrides := [] } targets path op
    exact hgranted rfl
  · refine iff_of_false ?_ fun h => hdenied h.1
    rw [explicitlyDenied_eq_false] at hdenied
    push Not at hdenied
    obtain ⟨rule, hrule, happlies⟩ := hdenied
    rw [evaluate_of_override_denies hdenials (List.mem_append_right _ hrule)
      (Bool.not_eq_false _ ▸ happlies)]
    decide

end LiveRules

theorem changeCells_getElem?
    (changes : List (Nat × (List Rule → List Rule)))
    {cell : Nat}
    (hother : ∀ change ∈ changes, change.1 ≠ cell) :
    (changeCells changes cells)[cell]? = cells[cell]? := by
  induction changes generalizing cells with
  | nil =>
      rfl
  | cons change changes ih =>
      have hfirst := hother change (List.mem_cons_self ..)
      rw [changeCells, List.foldl_cons, ← changeCells,
        ih fun later hlater => hother later (List.mem_cons_of_mem _ hlater),
        List.getElem?_modify]
      simp [hfirst]

/-- A grant for one command. -/
structure GrantsExactly (platform : Platform) (cells : SessionCells) (live : LiveRules)
    (targets : List FileTarget) (later : SessionCells) (copy : LiveRules) : Prop where
  /-- No target, no change. -/
  nothing : targets = [] → ∀ path op,
    copy.evaluate platform later path op = live.evaluate platform cells path op
  allows : targets ≠ [] → ∀ path op,
    copy.evaluate platform later path op = .allow ↔
      live.explicitlyDenied platform cells path op = false ∧
        (live.ungranted.evaluate platform cells path op = .allow ∨
          ∃ target ∈ targets, target.covers platform path op = true)
  /-- Whoever shares session rules decides as before. -/
  original : ∀ other : LiveRules, other.session < cells.length → ∀ path op,
    other.evaluate platform later path op = other.evaluate platform cells path op
  /-- What happens to shared session rules later does not reach the copy. -/
  separate : ∀ changes : List (Nat × (List Rule → List Rule)),
    (∀ change ∈ changes, change.1 < cells.length) → ∀ path op,
      copy.evaluate platform (changeCells changes later) path op =
        copy.evaluate platform later path op

end Grants

/-- A command's copy of the rules allows what no rule denies and either the rules allow without
a grant or a target covers; the shared session rules stay apart. -/
theorem execution_grants_exact
    (platform : Platform)
    (cells : SessionCells)
    (live : LiveRules)
    (targets : List FileTarget)
    (hoverrides : ∀ rule ∈ live.overrides, rule.decision = .deny) :
    GrantsExactly platform cells live targets (live.withExecutionGrants cells targets).1
      (live.withExecutionGrants cells targets).2 := by
  have hcells : (live.withExecutionGrants cells targets).1 =
      cells ++ [live.sessionRules cells] := rfl
  have hsession : (live.withExecutionGrants cells targets).2.session = cells.length := by
    simp only [LiveRules.withExecutionGrants]
    split
    · rfl
    · rfl
  constructor
  · rintro rfl path op
    simp only [LiveRules.withExecutionGrants, if_true, LiveRules.evaluate, LiveRules.snapshot,
      LiveRules.profileLayers, LiveRules.sessionRules, List.getElem?_concat_length,
      Option.getD_some]
  · intro htargets path op
    exact LiveRules.withExecutionGrants_allows hoverrides htargets
  · intro other hother path op
    refine LiveRules.evaluate_congr ?_
    rw [hcells, List.getElem?_append_left hother]
  · intro changes hchanges path op
    refine LiveRules.evaluate_congr (changeCells_getElem? changes fun change hchange => ?_)
    rw [hsession]
    exact (hchanges change hchange).ne

/-! ## A denial below a session's permission -/

/-- The session allows what the user's rules deny. -/
def sessionOverUser : LiveRules where
  workspace := ["/", "work"]
  tempRoots := []
  overrides := []
  guards := [⟨.subtree ["/", "work", "key"] ["/", "work", "key"], .both, .ask⟩]
  execution := []
  session := 0
  workspaceRules := []
  userRules := [⟨.subtree ["/", "work", "logs"] ["/", "work", "logs"], .both, .deny⟩]
  resolutionErrors := []

def logsAllowed : SessionCells :=
  [[⟨.subtree ["/", "work", "logs"] ["/", "work", "logs"], .both, .allow⟩]]

def keyTarget : FileTarget := ⟨["/", "work", "key"], .file, .read⟩

theorem execution_grants_exact_key :
    GrantsExactly .linux logsAllowed sessionOverUser [keyTarget]
      (sessionOverUser.withExecutionGrants logsAllowed [keyTarget]).1
      (sessionOverUser.withExecutionGrants logsAllowed [keyTarget]).2 :=
  execution_grants_exact .linux logsAllowed sessionOverUser [keyTarget] (by decide)

/-- A grant of a key takes the logs away, which it does not name. -/
theorem grant_takes_logs_away :
    (∀ rule ∈ sessionOverUser.overrides, rule.decision = .deny) ∧
      ¬ ((sessionOverUser.withExecutionGrants logsAllowed [keyTarget]).2.evaluate .linux
            (sessionOverUser.withExecutionGrants logsAllowed [keyTarget]).1
            ["/", "work", "logs"] .read = .allow ↔
          sessionOverUser.evaluate .linux logsAllowed ["/", "work", "logs"] .read = .allow ∨
            (∃ target ∈ [keyTarget], target.covers .linux ["/", "work", "logs"] .read = true) ∧
              sessionOverUser.explicitlyDenied .linux logsAllowed ["/", "work", "logs"] .read =
                false) := by
  decide

end Sandbox
end FutureOs
