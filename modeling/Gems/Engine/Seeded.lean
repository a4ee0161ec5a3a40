import Gems.Catalog.Bootstrap
import Gems.Engine.Enforced

set_option autoImplicit false

namespace Gems.Engine

open Lib Catalog Abac Index Storage

variable {os : PageSize} {s t : Store} {slots : Slots} {ords : Ordinals} {ids : Reverse} {map : Entities}
  {depth fuel : Nat} {b : Bootstrap} {calls : List Call} {subject : SubjectContext}

section Statement

def seedCall (seed : SeedEntity) : Call := .insert seed.header seed.body

/-- A call that leaves these ids alone and writes no policy. -/
def Call.Apart (ids : List Tuid) : Call → Prop
  | .insert header _ => header.id ∉ ids ∧ header.entityKind ≠ .policy
  | .delete id => id ∉ ids
  | .reopen => True

def seedIds (b : Bootstrap) : List Tuid := b.entities.map fun seed => seed.header.id

/-- The seeds are written in any order, with anything between them that leaves them alone and writes no policy. -/
structure Seeded (b : Bootstrap) (calls : List Call) : Prop where
  planted : ∀ seed ∈ b.entities, seedCall seed ∈ calls
  others : ∀ call ∈ calls, (∃ seed ∈ b.entities, call = seedCall seed) ∨ call.Apart (seedIds b)

-- Whom the starter policies show an entity.
def shows (b : Bootstrap) (subject : SubjectContext) (e : Entity) : Bool :=
  subject.roles.contains b.adminRoleId || e.1.entityKind = .data || e.1.entityKind = .entityType

/-- The subject is answered with what it is shown, whole, and with nothing else. -/
structure ShownWhole (fuel : Nat) (b : Bootstrap) (subject : SubjectContext) (t : Store) : Prop where
  get : ∀ id, ∃ found, t.get fuel id = .ok found ∧ t.getEnforced fuel id subject = .ok (found.filter (shows b subject))
  query : ∀ q list, t.query fuel q = .ok list → ∃ found, (list.mapM fun id => t.get fuel id) = .ok found ∧
    t.queryEnforced fuel q subject = .ok ((found.filterMap fun e => e).filter (shows b subject))

end Statement

section Decisions

theorem evaluate_permissive {policies : List Policy} {kind : EntityKind} {schemaRef : Tuid}
    (each : ∀ p ∈ policies, p.effect = .permit ∧ p.redactAttributes = []) :
    evaluate policies subject kind schemaRef =
      if policies.any fun p => p.applies subject.subjectId subject.roles kind schemaRef then .permit [] else .deny := by
  have denies : ((policies.filter fun p => p.applies subject.subjectId subject.roles kind schemaRef).any
      fun p => p.effect = .deny) = false := by
    rw [List.any_eq_false]
    intro p mem
    simp [(each p (List.mem_filter.mp mem).1).1]
  have redacts : ((policies.filter fun p => p.applies subject.subjectId subject.roles kind schemaRef).filter
      fun p => p.effect = .permit).flatMap (fun p => p.redactAttributes) = [] := by
    rw [List.flatMap_eq_nil_iff]
    exact fun p mem => (each p (List.mem_filter.mp (List.mem_filter.mp mem).1).1).2
  simp only [evaluate, denies, redacts]
  by_cases applies : policies.any fun p => p.applies subject.subjectId subject.roles kind schemaRef
  · obtain ⟨p, mem, here⟩ := List.any_eq_true.mp applies
    have some : (policies.filter fun p => p.applies subject.subjectId subject.roles kind schemaRef).isEmpty =
      false := by
      rw [List.isEmpty_eq_false_iff]
      exact List.ne_nil_of_mem (List.mem_filter.mpr ⟨mem, here⟩)
    rw [if_pos applies, some]
    rfl
  · have none : (policies.filter fun p => p.applies subject.subjectId subject.roles kind schemaRef).isEmpty = true := by
      rw [List.isEmpty_iff, List.filter_eq_nil_iff]
      exact fun p mem here => applies (List.any_eq_true.mpr ⟨p, mem, here⟩)
    rw [if_neg applies, none]
    rfl

theorem starter_decision {role : Tuid} (known : role ≠ .nil) (kind : EntityKind) (schemaRef : Tuid) :
    evaluate (starterPolicies role) subject kind schemaRef =
      if role ∈ subject.roles ∨ kind = .data ∨ kind = .entityType then .permit [] else .deny := by
  have admin : (adminSeesEverything role).applies subject.subjectId subject.roles kind schemaRef =
      decide (role ∈ subject.roles) := by
    simp only [Policy.applies, adminSeesEverything, TargetPredicate.any, TargetPredicate.matches,
      SubjectPredicate.matches]
    rw [if_neg (by simp [known])]
    simp only [Option.all_none, decide_true, Bool.true_or, Bool.and_self, Bool.true_and, ne_eq, not_true_eq_false,
      decide_false, Bool.false_and, Bool.false_or, known, not_false_eq_true]
    exact decide_eq_decide.mpr Iff.rfl
  have reads (readable : EntityKind) : (anyoneReads readable).applies subject.subjectId subject.roles kind schemaRef =
      decide (readable = kind) := by
    simp [Policy.applies, anyoneReads, SubjectPredicate.any, TargetPredicate.matches, SubjectPredicate.matches]
  have each (p : Policy) (mem : p ∈ starterPolicies role) : p.effect = .permit ∧ p.redactAttributes = [] := by
    simp only [starterPolicies, List.mem_cons, List.not_mem_nil, or_false] at mem
    rcases mem with rfl | rfl | rfl <;> exact ⟨rfl, rfl⟩
  rw [evaluate_permissive each]
  simp [starterPolicies, admin, anyoneReadsData, anyoneReadsTypes, reads, eq_comm (b := kind)]

theorem starter_enforceOne (known : b.adminRoleId ≠ .nil) {policies : List Policy}
    (perm : policies.Perm (starterPolicies b.adminRoleId)) (e : Entity) :
    enforceOne policies subject e = if shows b subject e then some e else none := by
  obtain ⟨header, body⟩ := e
  rw [enforceOne_perm perm]
  have decided : evaluate (starterPolicies b.adminRoleId) subject header.entityKind header.schemaRef = _ :=
    starter_decision known _ _
  have reads : shows b subject (header, body) = true ↔
      b.adminRoleId ∈ subject.roles ∨ header.entityKind = .data ∨ header.entityKind = .entityType := by
    simp [shows, or_assoc]
  by_cases shown : b.adminRoleId ∈ subject.roles ∨ header.entityKind = .data ∨ header.entityKind = .entityType
  · rw [if_pos shown] at decided
    rw [if_pos (reads.mpr shown), enforceOne, decided]
    rfl
  · rw [if_neg shown] at decided
    rw [if_neg fun holds => shown (reads.mp holds), enforceOne, decided]

theorem starter_view (known : b.adminRoleId ≠ .nil) {policies : List Policy}
    (perm : policies.Perm (starterPolicies b.adminRoleId)) (id : Tuid) :
    view policies subject map id = (map id).filter (shows b subject) := by
  rw [view]
  cases map id with
  | none => rfl
  | some e =>
    rw [Option.bind_some, starter_enforceOne known perm, Option.filter_some]

end Decisions

section Loading

theorem loadPolicies_known (linked : Linked os s slots ords ids map depth) (enough : depth ≤ fuel)
    (tracks : Tracks s.byKind kindField ords map) {expected : List (Tuid × Policy)}
    (nodup : (expected.map Prod.fst).Nodup)
    (only : ∀ id e, map id = some e → e.1.entityKind = .policy → id ∈ expected.map Prod.fst)
    (each : ∀ p ∈ expected, ∃ e, map p.1 = some e ∧ e.1.entityKind = .policy ∧ Policy.decode e.2 = .ok p.2) :
    ∃ policies, s.loadPolicies fuel = .ok policies ∧ policies.Perm (expected.map Prod.snd) := by
  obtain ⟨list, listed, distinct, names⟩ := linked.queryByKind enough tracks .policy
  have perm : list.Perm (expected.map Prod.fst) := by
    refine (List.perm_ext_iff_of_nodup distinct nodup).mpr fun id => ⟨fun mem => ?_, fun mem => ?_⟩
    · obtain ⟨e, known, kind⟩ := (names id).mp mem
      exact only id e known kind
    · obtain ⟨p, inside, rfl⟩ := List.mem_map.mp mem
      obtain ⟨e, known, kind, -⟩ := each p inside
      exact (names p.1).mpr ⟨e, known, kind⟩
  let policyOf (id : Tuid) : Option Policy := (map id).bind fun e => (Policy.decode e.2).toOption
  have policy (p : Tuid × Policy) (mem : p ∈ expected) : policyOf p.1 = some p.2 := by
    obtain ⟨e, known, -, read⟩ := each p mem
    simp only [policyOf, known, Option.bind_some, read]
    rfl
  have loaded : s.loadPolicies fuel = .ok (list.filterMap policyOf) := by
    rw [Store.loadPolicies, listed]
    refine mapM_known fun id mem => ?_
    obtain ⟨p, inside, rfl⟩ := List.mem_map.mp (perm.mem_iff.mp mem)
    obtain ⟨e, known, -, read⟩ := each p inside
    refine ⟨p.2, policy p inside, ?_⟩
    rw [linked.sound.get enough, known]
    exact read
  refine ⟨_, loaded, ?_⟩
  have whole : (expected.map Prod.fst).filterMap policyOf = expected.map Prod.snd := by
    rw [List.filterMap_map, ← List.filterMap_eq_map]
    exact List.filterMap_congr policy
  exact whole ▸ perm.filterMap policyOf

end Loading

section Contents

theorem contents_planted {call : Call} {id : Tuid} {e : Entity} (writes : ∀ map, call.onMap map id = some e)
    (others : ∀ other ∈ calls, other = call ∨ ∀ map, other.onMap map id = map id) {raw : Entities}
    (start : call ∈ calls ∨ raw id = some e) : contents calls raw id = some e := by
  induction calls generalizing raw with
  | nil => exact start.resolve_left List.not_mem_nil
  | cons first rest ih =>
    rw [contents, List.foldl_cons]
    refine ih (fun other mem => others other (List.mem_cons_of_mem first mem)) ?_
    rcases others first List.mem_cons_self with rfl | still
    · exact .inr (writes raw)
    · rcases start with mem | here
      · rcases List.mem_cons.mp mem with rfl | later
        · exact .inr (writes raw)
        · exact .inl later
      · exact .inr ((still raw).trans here)

theorem contents_from {raw : Entities} {id : Tuid} {e : Entity} (known : contents calls raw id = some e) :
    raw id = some e ∨ .insert e.1 e.2 ∈ calls ∧ e.1.id = id := by
  induction calls generalizing raw with
  | nil => exact .inl known
  | cons first rest ih =>
    rcases ih known with before | ⟨mem, owner⟩
    · cases first with
      | insert header body =>
        dsimp only [Call.onMap] at before
        split at before
        next =>
          by_cases same : id = header.id
          · subst same
            rw [Function.update_self] at before
            obtain rfl := Option.some.inj before
            exact .inr ⟨List.mem_cons_self, rfl⟩
          · rw [Function.update_of_ne same] at before
            exact .inl before
        next => exact .inl before
      | delete id' =>
        by_cases same : id = id'
        · subst same
          dsimp only [Call.onMap] at before
          rw [Function.update_self] at before
          cases before
        · dsimp only [Call.onMap] at before
          rw [Function.update_of_ne same] at before
          exact .inl before
      | reopen => exact .inl before
    · exact .inr ⟨List.mem_cons_of_mem first mem, owner⟩

end Contents

section Seeds

variable {generated : Nat → Tuid} {adminName : String}

theorem starter_fits {role : Tuid} {p : Policy} (mem : p ∈ starterPolicies role) :
    Fits p.encode ∧ Policy.decode p.encode = .ok p := by
  have none : p.redactAttributes = [] := by
    simp only [starterPolicies, List.mem_cons, List.not_mem_nil, or_false] at mem
    rcases mem with rfl | rfl | rfl <;> rfl
  constructor
  · simp [Fits, Policy.encode, none, flagByte, p.target.schemaRef.length_eq, p.subject.subjectId.length_eq,
      p.subject.roleId.length_eq, encodedLen, nameMax, descriptionMax, tuidLen]
    decide
  · exact Policy.decode_encode (by simp [Policy.Fits, Short, none])

theorem seeds_fit {seed : SeedEntity} (mem : seed ∈ (bootstrap generated adminName).entities) : Fits seed.body := by
  simp only [bootstrap, List.mem_cons, List.not_mem_nil, or_false] at mem
  have role : Fits (Role.encode {}) := by decide
  have policy {p : Policy} (starter : p ∈ starterPolicies (generated 0)) : Fits p.encode := (starter_fits starter).1
  have subject : Fits (Subject.encode { kind := .user, credentials := none, memberOf := [] }) := by decide
  rcases mem with rfl | rfl | rfl | rfl | rfl | rfl | rfl
  · exact role
  · exact role
  · exact role
  · exact policy (by simp [starterPolicies])
  · exact policy (by simp [starterPolicies])
  · exact policy (by simp [starterPolicies])
  · exact subject

theorem Seeded.holds (seeded : Seeded (bootstrap generated adminName) calls)
    (distinct : (seedIds (bootstrap generated adminName)).Nodup) {seed : SeedEntity}
    (mem : seed ∈ (bootstrap generated adminName).entities) (raw : Entities) :
    contents calls raw seed.header.id = some (seed.header, seed.body) := by
  refine contents_planted (fun map => ?_) (fun other inside => ?_) (.inl (seeded.planted seed mem))
  · rw [seedCall, Call.onMap, if_pos (seeds_fit mem), Function.update_self]
  · rcases seeded.others other inside with ⟨seed', mem', rfl⟩ | apart
    · by_cases same : seed'.header.id = seed.header.id
      · exact .inl (congrArg seedCall (List.inj_on_of_nodup_map distinct mem' mem same))
      · refine .inr fun map => ?_
        rw [seedCall, Call.onMap, if_pos (seeds_fit mem')]
        exact Function.update_of_ne (Ne.symm same) _ _
    · have here : seed.header.id ∈ seedIds (bootstrap generated adminName) := List.mem_map_of_mem mem
      refine .inr fun map => ?_
      cases other with
      | insert header body =>
        have other : seed.header.id ≠ header.id := fun same => apart.1 (same ▸ here)
        rw [Call.onMap]
        split
        · exact Function.update_of_ne other _ _
        · rfl
      | delete id =>
        have other : seed.header.id ≠ id := fun same => apart (same ▸ here)
        exact Function.update_of_ne other _ _
      | reopen => rfl

theorem Seeded.policies (seeded : Seeded (bootstrap generated adminName) calls) {id : Tuid} {e : Entity}
    (known : contents calls (fun _ => none) id = some e) (kind : e.1.entityKind = .policy) :
    id = generated 7 ∨ id = generated 9 ∨ id = generated 11 := by
  rcases contents_from known with none | ⟨mem, rfl⟩
  · cases none
  rcases seeded.others _ mem with ⟨seed, inside, same⟩ | apart
  · obtain ⟨header, body⟩ := Call.insert.inj same
    rw [header] at kind ⊢
    simp only [bootstrap, List.mem_cons, List.not_mem_nil, or_false] at inside
    rcases inside with rfl | rfl | rfl | rfl | rfl | rfl | rfl
    · cases kind
    · cases kind
    · cases kind
    · exact .inl rfl
    · exact .inr (.inl rfl)
    · exact .inr (.inr rfl)
    · cases kind
  · exact absurd kind apart.2

-- The starter policies, under their ids.
def plantedPolicies (generated : Nat → Tuid) : List (Tuid × Policy) :=
  [(generated 7, adminSeesEverything (generated 0)), (generated 9, anyoneReadsData), (generated 11, anyoneReadsTypes)]

theorem plantedPolicies_seed {p : Tuid × Policy} (mem : p ∈ plantedPolicies generated) :
    ∃ placeholder, (⟨.new placeholder p.1 "policy" .policy .nil, p.2.encode⟩ : SeedEntity) ∈
      (bootstrap generated adminName).entities := by
  simp only [plantedPolicies, List.mem_cons, List.not_mem_nil, or_false] at mem
  rcases mem with rfl | rfl | rfl
  · exact ⟨uuid (generated 8), by simp [bootstrap]⟩
  · exact ⟨uuid (generated 10), by simp [bootstrap]⟩
  · exact ⟨uuid (generated 12), by simp [bootstrap]⟩

theorem Seeded.loaded (seeded : Seeded (bootstrap generated adminName) calls)
    (distinct : (seedIds (bootstrap generated adminName)).Nodup)
    (rested : Rested os s slots ords ids (shown (contents calls fun _ => none)) depth) (enough : depth ≤ fuel) :
    ∃ policies, s.loadPolicies fuel = .ok policies ∧ policies.Perm (starterPolicies (generated 0)) := by
  have part : ((plantedPolicies generated).map Prod.fst).Sublist (seedIds (bootstrap generated adminName)) := by
    exact .cons _ (.cons _ (.cons _ (.cons_cons _ (.cons_cons _ (.cons_cons _ (.cons _ .slnil))))))
  refine loadPolicies_known rested.linked enough rested.filed.byKind (part.nodup distinct) ?_ ?_
  · intro id e known kind
    obtain ⟨before, here, rfl⟩ := Option.map_eq_some_iff.mp known
    have kind : before.1.entityKind = .policy := kind
    simpa [plantedPolicies] using seeded.policies here kind
  · intro p mem
    obtain ⟨placeholder, inside⟩ := plantedPolicies_seed mem
    have held := seeded.holds distinct inside fun _ => none
    have starter : p.2 ∈ starterPolicies (generated 0) := List.mem_map_of_mem (f := Prod.snd) mem
    exact ⟨_, by rw [shown]; exact congrArg (Option.map fun e : Entity => stored e.1 e.2) held, rfl,
      (starter_fits starter).2⟩

theorem Seeded.shownWhole (seeded : Seeded (bootstrap generated adminName) calls)
    (distinct : (seedIds (bootstrap generated adminName)).Nodup) (known : generated 0 ≠ .nil)
    (rested : Rested os s slots ords ids (shown (contents calls fun _ => none)) depth) (enough : depth ≤ fuel)
    (subject : SubjectContext) : ShownWhole fuel (bootstrap generated adminName) subject s := by
  obtain ⟨policies, loaded, perm⟩ := seeded.loaded distinct rested enough
  have sound := rested.linked.sound
  have views (id : Tuid) : view policies subject (shown (contents calls fun _ => none)) id = _ :=
    starter_view (b := bootstrap generated adminName) known perm id
  constructor
  · intro id
    refine ⟨_, sound.get enough id, ?_⟩
    rw [getEnforced_eq sound enough loaded, views]
  · intro q list answer
    have got : (list.mapM fun id => s.get fuel id) = .ok (list.map (shown (contents calls fun _ => none))) := by
      refine (mapM_known (g := fun id => some (shown (contents calls fun _ => none) id)) fun id _ =>
        ⟨_, rfl, sound.get enough id⟩).trans ?_
      rw [List.filterMap_eq_map']
    refine ⟨_, got, ?_⟩
    rw [queryEnforced_eq sound enough loaded answer, funext views]
    congr 1
    rw [List.filterMap_map, List.filter_filterMap]
    rfl

-- A run from an empty store, without a stop.
theorem run_from_empty (small : os.size ≤ 16384) (created : Store.create os = .ok s) (enough : calls.length ≤ fuel)
    (few : Within os fuel 1000 calls s) {given : List Reply} (made : runCalls os fuel calls s = (.ok given, t)) :
    ∃ slots ords ids depth, depth ≤ fuel ∧ Rested os t slots ords ids (shown (contents calls fun _ => none)) depth ∧
      Level t.data := by
  obtain ⟨empty, created', start, -⟩ := create_sound os
  obtain rfl : s = empty := Except.ok.inj (created.symm.trans created')
  have start : Sound os s (fun _ => Option.none) (fun _ => Option.none) (fun _ => Option.none)
      (shown fun _ => Option.none) 0 := start
  have ran := runCalls_rested (create_settled created).rested (by omega : 0 + calls.length ≤ fuel)
    (leveled_of_within small start (by omega) few)
  rw [made] at ran
  obtain ⟨-, slots, ords, ids, depth, shallow, rested⟩ := ran
  exact ⟨slots, ords, ids, depth, shallow, rested, rested.linked.sound.level small (few.last made)⟩

/-- On a store that was given the seeds, among whatever else but policies, a subject with the admin role is shown every
entity whole, and any other subject the data and the entity types whole and nothing else. -/
theorem seeded_shown (small : os.size ≤ 16384) (created : Store.create os = .ok s)
    (distinct : (seedIds (bootstrap generated adminName)).Nodup) (known : generated 0 ≠ .nil)
    (seeded : Seeded (bootstrap generated adminName) calls) (enough : calls.length ≤ fuel)
    (few : Within os fuel 1000 calls s) {given : List Reply} (made : runCalls os fuel calls s = (.ok given, t))
    (subject : SubjectContext) : ShownWhole fuel (bootstrap generated adminName) subject t := by
  obtain ⟨slots, ords, ids, depth, shallow, rested, -⟩ := run_from_empty small created enough few made
  exact seeded.shownWhole distinct known rested shallow subject

end Seeds

section Instance

def countedIds (i : Nat) : Tuid := smallId (UInt8.ofNat (i + 1))

def rootSeeds : Bootstrap := bootstrap countedIds "root"

def seedCalls : List Call := rootSeeds.entities.map seedCall

theorem seedCalls_run (created : Store.create fourKiB = .ok s) :
    ∃ given t, runCalls fourKiB 7 seedCalls s = (.ok given, t) := by
  have small : fourKiB.size ≤ 16384 := show 4096 ≤ 16384 by omega
  have count : seedCalls.length = 7 := rfl
  refine runCalls_returns small created (fun call mem => ?_) count.le (by omega)
  obtain ⟨seed, -, rfl⟩ := List.mem_map.mp mem
  simp [seedCall]

theorem seedCalls_seeded : Seeded rootSeeds seedCalls where
  planted := fun _ mem => List.mem_map_of_mem mem
  others := by
    intro call mem
    obtain ⟨seed, inside, rfl⟩ := List.mem_map.mp mem
    exact .inl ⟨seed, inside, rfl⟩

theorem seeded_shown_root : ∃ s t given, Store.create fourKiB = .ok s ∧
    runCalls fourKiB 7 seedCalls s = (.ok given, t) ∧ ∀ subject, ShownWhole 7 rootSeeds subject t := by
  have small : fourKiB.size ≤ 16384 := show 4096 ≤ 16384 by omega
  obtain ⟨s, created, sound, none, -⟩ := create_sound fourKiB
  have sound : Sound fourKiB s (fun _ => Option.none) (fun _ => Option.none) (fun _ => Option.none)
      (shown fun _ => Option.none) 0 := sound
  obtain ⟨given, t, made⟩ := seedCalls_run created
  have count : seedCalls.length = 7 := rfl
  have few : Within fourKiB 7 1000 seedCalls s := within_of_short small sound (by omega) (by omega)
  exact ⟨s, t, given, created, made, seeded_shown small created (by decide) (by decide) seedCalls_seeded (by omega)
    few made⟩

end Instance

end Gems.Engine
