import Parlance.Proofs.Dialect.Lineage

/-! Which node type a dialect has under a name. Its table is merged out of those of its ancestors,
one after the other; what it holds is found by following the line of ancestors down to the dialect,
where each that has registered a type of the name may or may not replace what is held by then. -/

namespace Parlance

open Index (get? names Ascending)

namespace NodeTypes

def latest (name : String) (registered : List NodeType) : Option NodeType :=
  registered.reverse.find? (·.name = name)

theorem latest_append (name : String) (before after : List NodeType) :
    latest name (before ++ after) = (latest name after).or (latest name before) := by
  rw [latest, List.reverse_append, List.find?_append]
  rfl

theorem latest_isSome {name : String} {registered : List NodeType} :
    (latest name registered).isSome ↔ ∃ nodeType ∈ registered, nodeType.name = name := by
  simp [latest]

theorem ofList_concat (registered : List NodeType) (last : NodeType) :
    ofList (registered ++ [last]) = (ofList registered).register last := by
  rw [ofList, List.foldl_append]
  rfl

theorem ascending_ofList (registered : List NodeType) : Ascending (ofList registered) := by
  induction registered using List.reverseRecOn with
  | nil => exact Index.ascending_nil
  | append_singleton registered last ih =>
      rw [ofList_concat]
      exact ih.insert last.name last

theorem get?_ofList (name : String) (registered : List NodeType) :
    get? name (ofList registered) = latest name registered := by
  induction registered using List.reverseRecOn with
  | nil => rfl
  | append_singleton registered last ih =>
      rw [ofList_concat, register, Index.get?_insert, latest_append, ih]
      by_cases same : last.name = name
      · simp [latest, same]
      · simp [latest, same, Ne.symm same]

/-- Merging in types that were registered is registering them afterwards. -/
theorem merge_ofList (first second : List NodeType) :
    Index.merge (ofList first) (ofList second) = ofList (first ++ second) := by
  refine ((ascending_ofList first).merge _).ext (ascending_ofList _) fun name => ?_
  rw [Index.get?_merge _ (ascending_ofList second).nodup, get?_ofList, get?_ofList, get?_ofList,
    latest_append]

end NodeTypes

namespace Registry

open NodeTypes (latest)

/-- The types of each fragment are those that were registered for it, in this order. -/
def RegistersTypes (registry : Registry) (registered : String → List NodeType) : Prop :=
  ∀ name fragment, get? name registry.fragments = some fragment →
    fragment.types = .ofList (registered name)

def precedenceOf (registry : Registry) (dialect : Dialect) : Precedence :=
  dialect.precedence.getD registry.settings.precedence

/-- All that the fragments of a dialect register, in the order in which it lists them. -/
def ownTypesOf (registered : String → List NodeType) (dialect : Dialect) : List NodeType :=
  dialect.fragments.flatMap registered

/-- What is held under a name below a dialect, if `holder` is what its ancestors leave it. -/
def succeed (registry : Registry) (registered : String → List NodeType) (name : String)
    (holder : Option NodeType) (dialect : Dialect) : Option NodeType :=
  match latest name (ownTypesOf registered dialect), holder with
  | none, holder => holder
  | some own, none => some own
  | some own, some holder =>
      match registry.precedenceOf dialect with
      | .parentWins => some holder
      | .childWins => some own

variable {source registry : Registry} {registered : String → List NodeType} {name : String}

theorem succeed_none (nodeName : String) (dialect : Dialect) :
    registry.succeed registered nodeName none dialect =
      latest nodeName (ownTypesOf registered dialect) := by
  unfold succeed
  cases latest nodeName (ownTypesOf registered dialect) <;> rfl

theorem succeed_parentWins {dialect : Dialect} (wins : registry.precedenceOf dialect = .parentWins)
    (nodeName : String) (holder : Option NodeType) :
    registry.succeed registered nodeName holder dialect =
      holder.or (latest nodeName (ownTypesOf registered dialect)) := by
  unfold succeed
  rw [wins]
  cases latest nodeName (ownTypesOf registered dialect) <;> cases holder <;> rfl

theorem succeed_childWins {dialect : Dialect} (wins : registry.precedenceOf dialect = .childWins)
    (nodeName : String) (holder : Option NodeType) :
    registry.succeed registered nodeName holder dialect =
      (latest nodeName (ownTypesOf registered dialect)).or holder := by
  unfold succeed
  rw [wins]
  cases latest nodeName (ownTypesOf registered dialect) <;> cases holder <;> rfl

theorem ownTypes_registered (registers : registry.RegistersTypes registered) {names : List String}
    {before : List NodeType} {own : NodeTypes}
    (owns : registry.ownTypes names (.ofList before) = .ok own) :
    own = .ofList (before ++ names.flatMap registered) := by
  induction names generalizing before with
  | nil =>
      obtain rfl := Except.ok.inj owns
      rw [List.flatMap_nil, List.append_nil]
  | cons name rest ih =>
      cases found : get? name registry.fragments with
      | none =>
          simp only [ownTypes, Registry.fragment, found] at owns
          cases owns
      | some fragment =>
          simp only [ownTypes, Registry.fragment, found, registers name fragment found,
            NodeTypes.merge_ofList] at owns
          rw [ih owns, List.flatMap_cons, List.append_assoc]

/-- One step down the line: what a dialect holds is what it makes of what its ancestors hold. -/
theorem get?_typesOver (dialect : Dialect) {inherited : Option NodeTypes}
    (ascending : ∀ types ∈ inherited, Ascending types) (nodeName : String) :
    get? nodeName (registry.typesOver dialect (.ofList (ownTypesOf registered dialect)) inherited) =
      registry.succeed registered nodeName (inherited.bind (get? nodeName)) dialect := by
  have own := NodeTypes.ascending_ofList (ownTypesOf registered dialect)
  unfold typesOver
  rw [← precedenceOf]
  cases inherited with
  | none => rw [mergeTypes, NodeTypes.get?_ofList, Option.bind_none, succeed_none]
  | some types =>
      have above := ascending types rfl
      rw [Option.bind_some]
      cases wins : registry.precedenceOf dialect with
      | parentWins =>
          rw [mergeTypes, Index.get?_merge _ above.nodup, NodeTypes.get?_ofList,
            succeed_parentWins wins]
      | childWins =>
          rw [mergeTypes, Index.get?_merge _ own.nodup, NodeTypes.get?_ofList,
            succeed_childWins wins]

theorem ascending_typesOver (dialect : Dialect) {own : NodeTypes} (ascending : Ascending own)
    {inherited : Option NodeTypes} (ascendingToo : ∀ types ∈ inherited, Ascending types) :
    Ascending (registry.typesOver dialect own inherited) := by
  unfold typesOver mergeTypes
  split
  · exact ascending
  · exact ascending.merge _
  · exact (ascendingToo _ rfl).merge _

theorem providedAlong_concat_ok {line : List Dialect} {dialect : Dialect} {members : List RuleSet}
    (along : registry.providedAlong (line ++ [dialect]) = .ok members) :
    ∃ inherited own, registry.providedAlong line = .ok inherited ∧
      dialect.fragments.mapM registry.provided = .ok own := by
  unfold providedAlong at along ⊢
  rw [List.flatMap_append, List.flatMap_singleton, List.mapM_append] at along
  cases above : (line.flatMap Dialect.fragments).mapM registry.provided with
  | error fault => rw [above] at along; cases along
  | ok inherited =>
      rw [above] at along
      cases provides : dialect.fragments.mapM registry.provided with
      | error fault => rw [provides] at along; cases along
      | ok own => exact ⟨inherited, own, rfl, rfl⟩

/-- What a dialect brings along itself, if nothing had been derived for it before the queries. -/
structure Brings (source : Registry) (name : String) (dialect now : Dialect) (own : List RuleSet)
    (types : List NodeType) : Prop where
  found : get? name source.dialects = some dialect
  ruleless : dialect.rules = none
  typeless : dialect.types = none
  parent : now.parent = dialect.parent
  provides : dialect.fragments.mapM source.provided = .ok own
  owns : source.ownTypes dialect.fragments [] = .ok (.ofList types)

theorem Derives.brings (derives : Derives source [] registry)
    (underived : ∀ name dialect, get? name source.dialects = some dialect → dialect.Underived)
    (registers : source.RegistersTypes registered) {now : Dialect}
    (foundNow : get? name registry.dialects = some now) {own : List RuleSet}
    (provides : now.fragments.mapM registry.provided = .ok own) :
    ∃ dialect, Grows source [] name dialect now ∧
      Brings source name dialect now own (ownTypesOf registered now) := by
  obtain ⟨dialect, found, grows⟩ := derives.origin foundNow
  have bare := underived name dialect found
  rw [grows.fragments, derives.fragments.provided] at provides
  obtain ⟨types, owns⟩ := ownTypes_ok (fun member own =>
    (mapM_eq_ok provides own).elim fun _ provided => registered_of_provided provided) []
  have same : types = .ofList (ownTypesOf registered now) := by
    rw [ownTypesOf, grows.fragments]
    exact @ownTypes_registered _ _ registers _ [] _ owns
  exact ⟨dialect, grows, found, by rw [← bare]; rfl, by rw [← bare]; rfl, grows.parent, provides,
    same ▸ owns⟩

theorem Lineage.typed (derives : Derives source [] registry)
    (underived : ∀ name dialect, get? name source.dialects = some dialect → dialect.Underived)
    (registers : source.RegistersTypes registered) {line : List Dialect}
    (lineage : Lineage registry name line) {members : List RuleSet}
    (along : registry.providedAlong line = .ok members) :
    ∃ rules types, Composes source [] name (.ok rules) ∧ Typed source name (.ok types) ∧
      Ascending types ∧
      ∀ nodeName, get? nodeName types = line.foldl (registry.succeed registered nodeName) none := by
  induction lineage generalizing members with
  | @oldest name now found parentless =>
      obtain ⟨_, own, -, provides⟩ := @providedAlong_concat_ok _ [] now _ along
      obtain ⟨dialect, grows, brings⟩ := derives.brings underived registers found provides
      have composed : source.composed dialect (.ok []) = .ok (RuleSet.compose ([] :: own)) := by
        rw [composed, brings.provides]
        rfl
      have composes := composed ▸ Composes.orphan brings.found brings.ruleless List.not_mem_nil
        (brings.parent.symm.trans parentless)
      have typed := Typed.orphan brings.found brings.typeless composes brings.owns
        (brings.parent.symm.trans parentless)
      rw [← derives.typesOver grows] at typed
      have nothing : ∀ known ∈ (none : Option NodeTypes), Ascending known :=
        fun _ absent => absurd absent (Option.not_mem_none _)
      exact ⟨_, _, composes, typed, ascending_typesOver now (NodeTypes.ascending_ofList _) nothing,
        fun nodeName => get?_typesOver now nothing nodeName⟩
  | @child name now parent ancestors found inherits above ih =>
      obtain ⟨inherited, own, alongAbove, provides⟩ := providedAlong_concat_ok along
      obtain ⟨dialect, grows, brings⟩ := derives.brings underived registers found provides
      obtain ⟨base, types, composesParent, typedParent, ascending, holds⟩ := ih alongAbove
      have inherits : dialect.parent = some parent := brings.parent.symm.trans inherits
      have needs : source.NeedsRules name parent :=
        ⟨dialect, brings.found, brings.ruleless, inherits⟩
      have composesParent : Composes source [name] parent (.ok base) :=
        composesParent.waiting_irrelevant fun other member =>
          List.mem_singleton.mp member ▸ .single needs
      have composed : source.composed dialect (.ok base) = .ok (RuleSet.compose (base :: own)) := by
        rw [composed, brings.provides]
        rfl
      have composes := composed ▸ Composes.child brings.found brings.ruleless List.not_mem_nil
        inherits composesParent
      have typed := Typed.child brings.found brings.typeless composes brings.owns inherits typedParent
      rw [Except.map, ← derives.typesOver grows] at typed
      have above : ∀ known ∈ some types, Ascending known :=
        fun _ same => Option.some.inj same ▸ ascending
      refine ⟨_, _, composes, typed, ascending_typesOver now (NodeTypes.ascending_ofList _) above,
        fun nodeName => ?_⟩
      rw [get?_typesOver now above, List.foldl_concat, Option.bind_some, holds]

/-- Node types that are made of anything are made of rules and of what a line provides. -/
theorem Typed.complete (derives : Derives source [] registry)
    (underived : ∀ name dialect, get? name source.dialects = some dialect → dialect.Underived)
    {types : NodeTypes} (typed : Typed source name (.ok types)) :
    ∃ line members, Lineage registry name line ∧ registry.providedAlong line = .ok members := by
  have lacking (name : String) (dialect : Dialect)
      (found : get? name source.dialects = some dialect) : dialect.rules = none := by
    rw [← underived name dialect found]
    rfl
  have composed : ∃ rules, Composes source [] name (.ok rules) := by
    generalize same : Except.ok types = result at typed
    cases typed with
    | unknown | ruleless => cases same
    | kept found kept =>
        rw [← underived name _ found] at kept
        cases kept
    | orphan _ _ composes | child _ _ composes => exact ⟨_, composes⟩
  obtain ⟨rules, composes⟩ := composed
  obtain ⟨line, members, lineage, along, -⟩ := composes.lineage derives lacking
  exact ⟨line, members, lineage, along⟩

section Line

variable (registry : Registry) (registered : String → List NodeType) (nodeName : String)

theorem succeed_isSome (holder : Option NodeType) (dialect : Dialect) :
    (registry.succeed registered nodeName holder dialect).isSome ↔
      holder.isSome ∨ ∃ fragment ∈ dialect.fragments, ∃ nodeType ∈ registered fragment,
        nodeType.name = nodeName := by
  have own : (latest nodeName (ownTypesOf registered dialect)).isSome ↔
      ∃ fragment ∈ dialect.fragments, ∃ nodeType ∈ registered fragment,
        nodeType.name = nodeName := by
    rw [NodeTypes.latest_isSome, ownTypesOf]
    simp only [List.mem_flatMap]
    grind
  rw [← own]
  cases wins : registry.precedenceOf dialect with
  | parentWins => rw [succeed_parentWins wins, Option.isSome_or, Bool.or_eq_true]
  | childWins => rw [succeed_childWins wins, Option.isSome_or, Bool.or_eq_true, or_comm]

theorem foldl_succeed_isSome (line : List Dialect) :
    (line.foldl (registry.succeed registered nodeName) none).isSome ↔
      ∃ dialect ∈ line, ∃ fragment ∈ dialect.fragments, ∃ nodeType ∈ registered fragment,
        nodeType.name = nodeName := by
  induction line using List.reverseRecOn with
  | nil => simp
  | append_singleton line dialect ih =>
      rw [List.foldl_concat, succeed_isSome, ih]
      simp only [List.mem_append, List.mem_singleton, or_and_right, exists_or, exists_eq_left]

theorem foldl_succeed_parentWins {line : List Dialect}
    (everywhere : ∀ dialect ∈ line, registry.precedenceOf dialect = .parentWins) :
    line.foldl (registry.succeed registered nodeName) none =
      line.findSome? fun dialect => latest nodeName (ownTypesOf registered dialect) := by
  induction line using List.reverseRecOn with
  | nil => rfl
  | append_singleton line dialect ih =>
      rw [List.foldl_concat, ih fun other member => everywhere other (List.mem_append_left _ member),
        succeed_parentWins (everywhere dialect (by simp)), List.findSome?_append,
        List.findSome?_singleton]

theorem foldl_succeed_childWins {line : List Dialect}
    (everywhere : ∀ dialect ∈ line, registry.precedenceOf dialect = .childWins) :
    line.foldl (registry.succeed registered nodeName) none =
      line.reverse.findSome? fun dialect => latest nodeName (ownTypesOf registered dialect) := by
  induction line using List.reverseRecOn with
  | nil => rfl
  | append_singleton line dialect ih =>
      rw [List.foldl_concat, ih fun other member => everywhere other (List.mem_append_left _ member),
        succeed_childWins (everywhere dialect (by simp)), List.reverse_concat, List.findSome?_cons]
      cases latest nodeName (ownTypesOf registered dialect) <;> rfl

end Line

/-- A dialect has node types exactly if its line of ancestors is there with all that they list. What
it has under a name is what is left by following the line from the oldest ancestor down: a dialect
with a type of the name among those that its fragments register puts the last of them in the place
of what is held, if it wins over its ancestors or nothing is held. -/
theorem types_follow_line (settings : Settings) {steps : List Step} (orderly : Orderly steps)
    {registered : String → List NodeType}
    (registers : (after settings steps).RegistersTypes registered) (name : String) :
    let registry := after settings steps
    ((∃ types, (registry.types name).1 = .ok types) ↔
      ∃ line members, Lineage registry name line ∧ registry.providedAlong line = .ok members) ∧
    ∀ types line, (registry.types name).1 = .ok types → Lineage registry name line →
      ∀ nodeName,
        get? nodeName types = line.foldl (registry.succeed registered nodeName) none ∧
        ((get? nodeName types).isSome ↔ ∃ dialect ∈ line, ∃ fragment ∈ dialect.fragments,
          ∃ nodeType ∈ registered fragment, nodeType.name = nodeName) ∧
        ((∀ dialect ∈ line, registry.precedenceOf dialect = .parentWins) → get? nodeName types =
          line.findSome? fun dialect => latest nodeName (ownTypesOf registered dialect)) ∧
        ((∀ dialect ∈ line, registry.precedenceOf dialect = .childWins) → get? nodeName types =
          line.reverse.findSome? fun dialect => latest nodeName (ownTypesOf registered dialect)) := by
  intro registry
  -- Answers are those of a registry that nobody has asked, in which nothing is kept.
  let fresh := after settings (steps.filter Step.registers)
  have settled : fresh.Settled := settled_after settings _
  have derives : Derives fresh [] registry := derives_registrations settings orderly
  have underived : ∀ name dialect, get? name fresh.dialects = some dialect → dialect.Underived :=
    fun _ _ found => underived_registered (fun _ member => (List.mem_filter.mp member).2) found
  have registersToo : fresh.RegistersTypes registered := by
    intro name fragment found
    rcases derives.fragments.cases name with ⟨absent, -⟩ | ⟨other, twin, foundToo, here, -, -, same⟩
    · cases found.symm.trans absent
    · obtain rfl := Option.some.inj (found.symm.trans foundToo)
      rw [← same, registers name twin here]
  have typed_iff (types : NodeTypes) :
      (registry.types name).1 = .ok types ↔ Typed fresh name (.ok types) := by
    obtain ⟨result, _, ran, -, outcome⟩ := types_spec settled derives name
    rw [ran]
    rcases outcome with typed | ⟨rfl, round⟩
    · exact ⟨fun same => same ▸ typed, typed.unique⟩
    · exact ⟨nofun, fun typed => absurd round typed.not_goesRound⟩
  refine ⟨⟨fun ⟨types, answered⟩ => ((typed_iff types).mp answered).complete derives underived,
    fun ⟨line, members, lineage, along⟩ => ?_⟩, fun types line answered lineage nodeName => ?_⟩
  · obtain ⟨_, types, -, typed, -⟩ := lineage.typed derives underived registersToo along
    exact ⟨types, (typed_iff types).mpr typed⟩
  · have typed := (typed_iff types).mp answered
    obtain ⟨other, members, lineageToo, along⟩ := typed.complete derives underived
    obtain rfl := lineage.unique lineageToo
    obtain ⟨_, same, -, typedToo, -, holds⟩ := lineage.typed derives underived registersToo along
    obtain rfl := Except.ok.inj (typed.unique typedToo)
    rw [holds nodeName]
    exact ⟨rfl, foldl_succeed_isSome registry registered nodeName line,
      foldl_succeed_parentWins registry registered nodeName,
      foldl_succeed_childWins registry registered nodeName⟩

def plainRules : RuleSet := [("Program", [.ofPattern (.tokenClass "Name")])]

def nameType (text : String) : NodeType := ⟨"Name", [.write text], none⟩

def twoFragments : String → List NodeType
  | "first" => [nameType "oldest", ⟨"Number", [], none⟩]
  | "second" => [nameType "once", nameType "twice"]
  | _ => []

/-- A fragment is registered again before anyone asks, and the middle dialect wins over the oldest. -/
def earlyRegistrations : List Step := [
  .fragment (.make "first" none []),
  .fragment (.make "first" (some plainRules) (.ofList (twoFragments "first"))),
  .fragment (.make "second" (some plainRules) (.ofList (twoFragments "second"))),
  .dialect (.define "oldest" none ["first"]) (underived_define ..),
  .dialect { Dialect.define "middle" (some "oldest") ["second"] with
    precedence := some .childWins } rfl]

/-- The last dialect is registered when its parent has been asked about, and gives way to it. -/
def mixedPrecedence : List Step :=
  earlyRegistrations ++ [.query .types "middle"] ++
    [.dialect (.define "last" (some "middle") ["first"]) (underived_define ..)] ++
    [.query .rules "last"]

theorem types_follow_line_mixedPrecedence :
    let registry := after .defaults mixedPrecedence
    Orderly mixedPrecedence ∧ registry.RegistersTypes twoFragments ∧
      ∃ types, (registry.types "last").1 = .ok types ∧
        get? "Name" types = some (nameType "twice") := by
  intro registry
  have orderly : Orderly mixedPrecedence :=
    (((Orderly.unasked (by decide)).asked .types "middle").dialect (underived_define ..)
      (by decide)).asked .rules "last"
  have registers : registry.RegistersTypes twoFragments := by
    intro name fragment found
    have listed : (name, fragment.types) ∈
        registry.fragments.map fun entry => (entry.1, entry.2.types) :=
      List.mem_map.mpr ⟨_, Index.mem_of_get? found, rfl⟩
    rw [show registry.fragments.map (fun entry => (entry.1, entry.2.types)) =
      [("first", .ofList (twoFragments "first")), ("second", .ofList (twoFragments "second"))]
        from rfl] at listed
    rcases List.mem_pair.mp listed with same | same
    · obtain ⟨rfl, types⟩ := Prod.mk.inj same
      exact types
    · obtain ⟨rfl, types⟩ := Prod.mk.inj same
      exact types
  have dialects (name : String) (shape : Option String × List String × Option Precedence)
      (same : (get? name registry.dialects).map (fun dialect =>
        (dialect.parent, dialect.fragments, dialect.precedence)) = some shape) :
      ∃ dialect, get? name registry.dialects = some dialect ∧ dialect.parent = shape.1 ∧
        dialect.fragments = shape.2.1 ∧ dialect.precedence = shape.2.2 := by
    obtain ⟨dialect, found, rfl⟩ := Option.map_eq_some_iff.mp same
    exact ⟨dialect, found, rfl, rfl, rfl⟩
  obtain ⟨oldest, foundOldest, parentless, ownOldest, precedenceOldest⟩ :=
    dialects "oldest" (none, ["first"], none) (by decide +kernel)
  obtain ⟨middle, foundMiddle, inheritsMiddle, ownMiddle, precedenceMiddle⟩ :=
    dialects "middle" (some "oldest", ["second"], some .childWins) (by decide +kernel)
  obtain ⟨last, foundLast, inheritsLast, ownLast, precedenceLast⟩ :=
    dialects "last" (some "middle", ["first"], none) (by decide +kernel)
  have lineage : Lineage registry "last" [oldest, middle, last] :=
    ((Lineage.oldest foundOldest parentless).child foundMiddle inheritsMiddle).child foundLast
      inheritsLast
  obtain ⟨complete, holds⟩ := types_follow_line .defaults orderly registers "last"
  have along : registry.providedAlong [oldest, middle, last] =
      .ok [plainRules, plainRules, plainRules] := by
    simp only [providedAlong, List.flatMap_cons, List.flatMap_nil, ownOldest, ownMiddle, ownLast]
    rfl
  obtain ⟨types, answered⟩ := complete.mpr ⟨_, _, lineage, along⟩
  obtain ⟨held, -⟩ := holds types _ answered lineage "Name"
  refine ⟨orderly, registers, types, answered, held.trans ?_⟩
  simp only [List.foldl_cons, List.foldl_nil, succeed, precedenceOf, ownTypesOf, ownOldest, ownMiddle,
    ownLast, precedenceMiddle, precedenceLast]
  rfl

/-- A parent gets another fragment after its child has been asked about. -/
def replacedParent : List Step := [
  .fragment (.make "first" (some plainRules) (.ofList [⟨"Old", [], none⟩])),
  .fragment (.make "second" (some plainRules) (.ofList [⟨"New", [], none⟩])),
  .dialect (.define "base" none ["first"]) (underived_define ..),
  .dialect (.define "child" (some "base") []) (underived_define ..),
  .query .types "child",
  .dialect (.define "base" none ["second"]) (underived_define ..)]

/-- The child is left with the node types that it has kept. -/
theorem types_kept_from_replacedParent :
    let registry := after .defaults replacedParent
    ∃ types base child, (registry.types "child").1 = .ok types ∧
      Lineage registry "child" [base, child] ∧ "second" ∈ base.fragments ∧
      (get? "second" registry.fragments).map Fragment.types = some (.ofList [⟨"New", [], none⟩]) ∧
      get? "New" types = none ∧ (get? "Old" types).isSome := by
  have parent : (get? "child" (after .defaults replacedParent).dialects).map Dialect.parent =
      some (some "base") := by decide +kernel
  obtain ⟨child, found, inherits⟩ := Option.map_eq_some_iff.mp parent
  let base : Dialect := .define "base" none ["second"]
  have above : Lineage (after .defaults replacedParent) "base" [base] := .oldest rfl rfl
  exact ⟨.ofList [⟨"Old", [], none⟩], base, child, rfl, above.child found inherits,
    List.mem_singleton_self _, rfl, rfl, rfl⟩

end Registry

end Parlance
