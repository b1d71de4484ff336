/- Module: Ccmux/Policy/Resolve
   source: src/policy/resolve.ts, src/policy/schema.ts, src/policy/reference.ts,
     src/agent/launch/launchInputs.ts (stableJson)
   digest: From a host's definition to the policy of a runtime, and that accepted metadata admit no
     other policy than the one they were made with. -/

import Ccmux.Agent.Launch.StableJson
import Ccmux.Policy.Sources

namespace Ccmux.Policy.Resolve

open Ccmux.Agent.Launch.StableJson
open Ccmux.Lib.CodePoints
open Ccmux.Lib.JsonTree
open Ccmux.Lib.Text (Chars)
open Ccmux.Policy.Sources

/-- `AgentPoliciesSchema`: each policy under its identifier. -/
abbrev AgentPolicies := List (JsString × HostAgentPolicy)

inductive SourceKind where
  | instructions | skill | agent
  deriving DecidableEq

def SourceKind.text : SourceKind → String
  | .instructions => "instructions"
  | .skill => "skill"
  | .agent => "agent"

inductive Capability where
  | developerInstructions | nativeSkills | nativeAgent | toolDenials
  deriving DecidableEq

def Capability.text : Capability → String
  | .developerInstructions => "developer-instructions"
  | .nativeSkills => "native-skills"
  | .nativeAgent => "native-agent"
  | .toolDenials => "tool-denials"

structure MetadataSource where
  id : JsString
  digest : JsString
  kind : SourceKind
  deriving DecidableEq

structure ApplicationPolicyMetadata where
  id : JsString
  revision : JsString
  digest : JsString
  runtime : JsString
  sources : List MetadataSource
  capabilities : List Capability
  deriving DecidableEq

structure PrivateSource where
  source : PolicySource
  body : Chars
  deriving DecidableEq

structure PrivateSkill where
  source : PrivateSource
  name : JsString
  deriving DecidableEq

inductive MaterializedPolicy where
  | codex (metadata : ApplicationPolicyMetadata) (instructionSources : List PrivateSource)
      (skills : List PrivateSkill)
  | openCode (metadata : ApplicationPolicyMetadata) (name : JsString) (source : PrivateSource)
      (prompt : Chars) (denyTools : List JsString)
  deriving DecidableEq

def MaterializedPolicy.metadata : MaterializedPolicy → ApplicationPolicyMetadata
  | .codex metadata _ _ => metadata
  | .openCode metadata _ _ _ _ => metadata

def HostAgentPolicy.runtime : HostAgentPolicy → JsString
  | .codex _ => jsString "codex"
  | .openCode _ => jsString "opencode"

def HostAgentPolicy.revision : HostAgentPolicy → JsString
  | .codex policy => policy.revision
  | .openCode policy => policy.revision

/-- The sources of a definition, in the order in which they are read. -/
def HostAgentPolicy.sources : HostAgentPolicy → List PolicySource
  | .codex policy => policy.instructionSources ++ policy.skills.map NativeSkill.source
  | .openCode policy => [policy.source]

/-! ### The schemas -/

/-- `ApplicationPolicyMetadataSchema` -/
def metadataFits (metadata : ApplicationPolicyMetadata) : Bool :=
  isPolicyId metadata.id && isPolicyId metadata.revision && isDigest metadata.digest &&
    [jsString "codex", jsString "opencode"].contains metadata.runtime &&
    (metadata.sources.all fun source => isPolicyId source.id && isDigest source.digest) &&
    1 ≤ metadata.sources.length && metadata.sources.length ≤ 32 &&
    1 ≤ metadata.capabilities.length && metadata.capabilities.length ≤ 4

/-- `MaterializedPolicySchema` -/
def materializedFits : MaterializedPolicy → Bool
  | .codex metadata instructionSources skills =>
    metadataFits metadata && (instructionSources.all fun source => sourceFits source.source) &&
      skills.all fun skill => sourceFits skill.source.source && isPolicyId skill.name
  | .openCode metadata name source _ denyTools =>
    metadataFits metadata && isPolicyId name && sourceFits source.source && denyTools.all isPolicyId

def parse {α : Type} (fits : α → Bool) (value : α) : Except Failure α :=
  if fits value then .ok value else .error .invalid

/-! ### JSON -/

def textJson (text : JsString) : Json := .str text.units

def texts (items : List JsString) : Json := .arr (items.map textJson)

def sourceJson (source : PolicySource) : Json :=
  .obj [(units "id", textJson source.id), (units "path", textJson source.path),
    (units "sha256", textJson source.sha256)]

def skillJson (skill : NativeSkill) : Json :=
  .obj [(units "id", textJson skill.source.id), (units "path", textJson skill.source.path),
    (units "sha256", textJson skill.source.sha256), (units "name", textJson skill.name)]

/-- `{ id, ...definition }` -/
def definitionJson (id : JsString) : HostAgentPolicy → Json
  | .codex policy =>
    .obj [(units "id", textJson id), (units "revision", textJson policy.revision),
      (units "trustedRoots", texts policy.trustedRoots), (units "runtime", .str (units "codex")),
      (units "instructionSources", .arr (policy.instructionSources.map sourceJson)),
      (units "skills", .arr (policy.skills.map skillJson))]
  | .openCode policy =>
    .obj [(units "id", textJson id), (units "revision", textJson policy.revision),
      (units "trustedRoots", texts policy.trustedRoots), (units "runtime", .str (units "opencode")),
      (units "agent", .obj [(units "name", textJson policy.name),
        (units "source", sourceJson policy.source)]),
      (units "denyTools", texts policy.denyTools)]

def metadataSourceJson (source : MetadataSource) : Json :=
  .obj [(units "id", textJson source.id), (units "digest", textJson source.digest),
    (units "kind", .str (units source.kind.text))]

def metadataJson (metadata : ApplicationPolicyMetadata) : Json :=
  .obj [(units "id", textJson metadata.id), (units "revision", textJson metadata.revision),
    (units "digest", textJson metadata.digest), (units "runtime", textJson metadata.runtime),
    (units "sources", .arr (metadata.sources.map metadataSourceJson)),
    (units "capabilities", .arr (metadata.capabilities.map fun capability =>
      .str (units capability.text)))]

/-! ### Resolving -/

/-- What `load` remembers between two sources. -/
structure Loading where
  seen : List JsString := []
  totalBytes : Nat := 0
  deriving DecidableEq

/-- The names that every object inherits; none of them has a runtime. -/
def inherited : List JsString :=
  ["constructor", "hasOwnProperty", "isPrototypeOf", "propertyIsEnumerable", "toLocaleString",
    "toString", "valueOf"].map jsString

section
variable (sha256 : List UInt8 → JsString) (disk : Disk)

def load (policyId : JsString) (roots : List JsString) (loading : Loading) (source : PolicySource) :
    Except Failure (PrivateSource × Loading) :=
  if loading.seen.contains source.id then policyUnavailable policyId "duplicate-source-id"
  else do
    let body ← readPolicySource sha256 disk policyId roots source
    if decide (maxPolicyBytes < loading.totalBytes + (utf8 body).length) then
      policyUnavailable policyId "composition-size-limit"
    else
      return (⟨source, body⟩, ⟨source.id :: loading.seen, loading.totalBytes + (utf8 body).length⟩)

def loadAll (policyId : JsString) (roots : List JsString) :
    List PolicySource → Loading → Except Failure (List PrivateSource × Loading)
  | [], loading => .ok ([], loading)
  | source :: rest, loading => do
    let (first, loading) ← load sha256 disk policyId roots loading source
    let (others, loading) ← loadAll policyId roots rest loading
    return (first :: others, loading)

/-- `policySha256` of the stable text of a definition. -/
def definitionDigest (id : JsString) (definition : HostAgentPolicy) : JsString :=
  sha256 (utf8Bytes (stableJson (definitionJson id definition)))

def materializeCodex (id : JsString) (policy : CodexAgentPolicy) :
    Except Failure MaterializedPolicy := do
  let (instructionSources, loading) ←
    loadAll sha256 disk id policy.trustedRoots policy.instructionSources {}
  let (loaded, _) ←
    loadAll sha256 disk id policy.trustedRoots (policy.skills.map NativeSkill.source) loading
  if decide ¬ (policy.skills.map NativeSkill.name).Nodup then
    policyUnavailable id "duplicate-skill-name"
  else
    let skills := List.zipWith PrivateSkill.mk loaded (policy.skills.map NativeSkill.name)
    let metadata ← parse metadataFits
      { id, revision := policy.revision, digest := definitionDigest sha256 id (.codex policy)
        runtime := jsString "codex"
        sources :=
          (instructionSources.map fun source =>
            ⟨source.source.id, source.source.sha256, .instructions⟩) ++
          skills.map fun skill => ⟨skill.source.source.id, skill.source.source.sha256, .skill⟩
        capabilities := (if instructionSources.length ≠ 0 then [.developerInstructions] else []) ++
          if skills.length ≠ 0 then [.nativeSkills] else [] }
    parse materializedFits (.codex metadata instructionSources skills)

def materializeOpenCode (id : JsString) (policy : OpenCodeAgentPolicy) :
    Except Failure MaterializedPolicy := do
  let (source, _) ← load sha256 disk id policy.trustedRoots {} policy.source
  let prompt ← canonicalAgentPrompt id source.body
  if prompt.isEmpty then policyUnavailable id "empty-agent-prompt"
  else
    let metadata ← parse metadataFits
      { id, revision := policy.revision, digest := definitionDigest sha256 id (.openCode policy)
        runtime := jsString "opencode"
        sources := [⟨source.source.id, source.source.sha256, .agent⟩]
        capabilities := .nativeAgent ::
          if policy.denyTools.length ≠ 0 then [.toolDenials] else [] }
    parse materializedFits (.openCode metadata policy.name source prompt
      (policy.denyTools.eraseDups.insertionSort fun a b => unitsLe a.units b.units))

/-- What is done with a definition that was found. -/
def materialize (id : JsString) : HostAgentPolicy → Except Failure MaterializedPolicy
  | .codex policy => materializeCodex sha256 disk id policy
  | .openCode policy => materializeOpenCode sha256 disk id policy

/-- Resolve before journaling create intent or touching a provider. -/
def resolveApplicationPolicy (host : AgentPolicies) (runtime id revision : JsString) :
    Except Failure MaterializedPolicy :=
  if !(isPolicyId id && isPolicyId revision) then
    policyUnavailable (jsString "unknown") "invalid-reference"
  else if !host.all fun entry => isPolicyId entry.1 && policyFits entry.2 then
    policyUnavailable id "invalid-host-definition"
  else
    match List.lookup id host with
    | none =>
      policyUnavailable id (if inherited.contains id then "runtime-mismatch" else "unknown-policy")
    | some definition =>
      if HostAgentPolicy.runtime definition != runtime then
        policyUnavailable id "runtime-mismatch"
      else if HostAgentPolicy.revision definition != revision then
        policyUnavailable id "revision-mismatch"
      else materialize sha256 disk id definition

/-- Re-run at every start/resume and turn admission. Accepted digests never follow edited
sources. -/
def verifyApplicationPolicy (host : AgentPolicies) (runtime : JsString)
    (accepted : ApplicationPolicyMetadata) : Except Failure MaterializedPolicy :=
  if !metadataFits accepted then
    policyUnavailable (jsString "unknown") "invalid-accepted-policy"
  else do
    let resolved ← resolveApplicationPolicy sha256 disk host runtime accepted.id accepted.revision
    if stableJson (metadataJson resolved.metadata) != stableJson (metadataJson accepted) then
      policyUnavailable accepted.id "accepted-policy-changed"
    else return resolved

end

/-! ### What the digest says -/

variable {a b : JsString}

theorem units_injective (h : a.units = b.units) : a = b :=
  List.map_injective_iff.mpr (fun _ _ => UInt16.toNat_inj.mp) h

theorem textJson_injective (h : textJson a = textJson b) : a = b :=
  units_injective (Json.str.inj h)

theorem walkItems_map {α : Type} {f g : α → Json} (h : ∀ x, walk (f x) = g x) (xs : List α) :
    walkItems (xs.map f) = xs.map g := by
  induction xs with
  | nil => rfl
  | cons x rest ih => rw [List.map_cons, walkItems, h, ih, List.map_cons]

theorem walk_texts (items : List JsString) : walk (texts items) = texts items := by
  rw [texts, walk, @walkItems_map JsString textJson textJson fun _ => rfl]

def sortedSkill (skill : NativeSkill) : Json :=
  .obj [(units "id", textJson skill.source.id), (units "name", textJson skill.name),
    (units "path", textJson skill.source.path), (units "sha256", textJson skill.source.sha256)]

/-- A definition with its keys in order at every depth. -/
def sortedDefinition (id : JsString) : HostAgentPolicy → Json
  | .codex policy =>
    .obj [(units "id", textJson id),
      (units "instructionSources", .arr (policy.instructionSources.map sourceJson)),
      (units "revision", textJson policy.revision), (units "runtime", .str (units "codex")),
      (units "skills", .arr (policy.skills.map sortedSkill)),
      (units "trustedRoots", texts policy.trustedRoots)]
  | .openCode policy =>
    .obj [(units "agent", .obj [(units "name", textJson policy.name),
        (units "source", sourceJson policy.source)]),
      (units "denyTools", texts policy.denyTools), (units "id", textJson id),
      (units "revision", textJson policy.revision), (units "runtime", .str (units "opencode")),
      (units "trustedRoots", texts policy.trustedRoots)]

theorem walk_definitionJson (id : JsString) (definition : HostAgentPolicy) :
    walk (definitionJson id definition) = sortedDefinition id definition := by
  cases definition with
  | codex policy =>
    have hsources := @walkItems_map PolicySource sourceJson sourceJson (fun _ => rfl)
      policy.instructionSources
    have hskills := @walkItems_map NativeSkill skillJson sortedSkill (fun _ => rfl) policy.skills
    rw [definitionJson, walk]
    simp only [walkFields, walk_texts, walk, hsources, hskills]
    rfl
  | openCode policy =>
    rw [definitionJson, walk]
    simp only [walkFields, walk_texts]
    rfl

theorem sourceJson_injective : Function.Injective sourceJson := by
  intro a b h
  obtain ⟨id, path, sha256⟩ := a
  simp only [sourceJson, Json.obj.injEq, List.cons.injEq, Prod.mk.injEq, true_and, and_true] at h
  obtain ⟨hid, hpath, hsha⟩ := h
  rw [textJson_injective hid, textJson_injective hpath, textJson_injective hsha]

theorem sortedSkill_injective : Function.Injective sortedSkill := by
  intro a b h
  obtain ⟨⟨id, path, sha256⟩, name⟩ := a
  simp only [sortedSkill, Json.obj.injEq, List.cons.injEq, Prod.mk.injEq, true_and, and_true] at h
  obtain ⟨hid, hname, hpath, hsha⟩ := h
  rw [textJson_injective hid, textJson_injective hname, textJson_injective hpath,
    textJson_injective hsha]

theorem texts_injective : Function.Injective texts := by
  intro a b h
  exact List.map_injective_iff.mpr (fun _ _ => textJson_injective) (Json.arr.inj h)

/-- The sorted text tells the identifier and the definition. -/
theorem sortedDefinition_injective {id id' : JsString} {definition other : HostAgentPolicy}
    (h : sortedDefinition id definition = sortedDefinition id' other) :
    id = id' ∧ definition = other := by
  have hkeys : units "id" ≠ units "agent" := by decide
  cases definition with
  | codex policy =>
    cases other with
    | codex policy' =>
      obtain ⟨revision, trustedRoots, instructionSources, skills⟩ := policy
      simp only [sortedDefinition, Json.obj.injEq, List.cons.injEq, Prod.mk.injEq, true_and,
        and_true, Json.arr.injEq] at h
      obtain ⟨hid, hsources, hrevision, hskills, hroots⟩ := h
      refine ⟨textJson_injective hid, ?_⟩
      rw [textJson_injective hrevision, texts_injective hroots,
        List.map_injective_iff.mpr sourceJson_injective hsources,
        List.map_injective_iff.mpr sortedSkill_injective hskills]
    | openCode policy' =>
      simp only [sortedDefinition, Json.obj.injEq, List.cons.injEq, Prod.mk.injEq] at h
      exact absurd h.1.1 hkeys
  | openCode policy =>
    cases other with
    | codex policy' =>
      simp only [sortedDefinition, Json.obj.injEq, List.cons.injEq, Prod.mk.injEq] at h
      exact absurd h.1.1.symm hkeys
    | openCode policy' =>
      obtain ⟨revision, trustedRoots, name, source, denyTools⟩ := policy
      simp only [sortedDefinition, Json.obj.injEq, List.cons.injEq, Prod.mk.injEq, true_and,
        and_true] at h
      obtain ⟨⟨hname, hsource⟩, hdeny, hid, hrevision, hroots⟩ := h
      refine ⟨textJson_injective hid, ?_⟩
      rw [textJson_injective hname, sourceJson_injective hsource, texts_injective hdeny,
        textJson_injective hrevision, texts_injective hroots]

theorem narrow_textJson (text : JsString) : narrow (textJson text) = true := by
  rw [textJson, narrow, List.all_eq_true]
  intro c hc
  obtain ⟨unit, -, rfl⟩ := List.mem_map.mp hc
  exact decide_eq_true unit.toNat_lt

theorem narrowItems_map {α : Type} {f : α → Json} (h : ∀ x, narrow (f x) = true) (xs : List α) :
    narrowItems (xs.map f) = true := by
  induction xs with
  | nil => rfl
  | cons x rest ih => rw [List.map_cons, narrowItems, h, ih, Bool.and_self]

theorem narrow_texts (items : List JsString) : narrow (texts items) = true := by
  rw [texts, narrow]
  exact narrowItems_map narrow_textJson items

theorem narrow_sourceJson (source : PolicySource) : narrow (sourceJson source) = true := by
  simp only [sourceJson, narrow, narrowFields, narrow_textJson]
  decide

theorem narrow_sortedSkill (skill : NativeSkill) : narrow (sortedSkill skill) = true := by
  simp only [sortedSkill, narrow, narrowFields, narrow_textJson]
  decide

theorem narrow_sortedDefinition (id : JsString) (definition : HostAgentPolicy) :
    narrow (sortedDefinition id definition) = true := by
  cases definition with
  | codex policy =>
    have hsources := narrowItems_map narrow_sourceJson policy.instructionSources
    have hskills := narrowItems_map narrow_sortedSkill policy.skills
    simp only [sortedDefinition, narrow, narrowFields, narrow_textJson, narrow_texts, hsources,
      hskills]
    decide
  | openCode policy =>
    simp only [sortedDefinition, narrow, narrowFields, narrow_textJson, narrow_texts,
      narrow_sourceJson]
    decide

theorem definitionDigest_injective {sha256 : List UInt8 → JsString}
    (hsha : Function.Injective sha256) {id id' : JsString} {definition other : HostAgentPolicy}
    (h : definitionDigest sha256 id definition = definitionDigest sha256 id' other) :
    id = id' ∧ definition = other := by
  have hbytes := hsha h
  rw [stableJson, stableJson, walk_definitionJson, walk_definitionJson] at hbytes
  exact sortedDefinition_injective (utf8Bytes_stringify (narrow_sortedDefinition id definition)
    (narrow_sortedDefinition id' other) hbytes)

theorem metadataDigest_of_stableJson {a b : ApplicationPolicyMetadata}
    (h : stableJson (metadataJson a) = stableJson (metadataJson b)) : a.digest = b.digest := by
  have hwalk : ∀ metadata : ApplicationPolicyMetadata, ∃ sources capabilities,
      walk (metadataJson metadata) =
        .obj [(units "capabilities", capabilities), (units "digest", textJson metadata.digest),
          (units "id", textJson metadata.id), (units "revision", textJson metadata.revision),
          (units "runtime", textJson metadata.runtime), (units "sources", sources)] :=
    fun metadata => ⟨_, _, rfl⟩
  obtain ⟨sources, capabilities, ha⟩ := hwalk a
  obtain ⟨sources', capabilities', hb⟩ := hwalk b
  have hvalues := stringify_injective h
  rw [ha, hb] at hvalues
  simp only [Json.obj.injEq, List.cons.injEq, Prod.mk.injEq, true_and] at hvalues
  exact textJson_injective hvalues.2.1

/-! ### One definition under two states of the files -/

section
variable {sha256 : List UInt8 → JsString} {disk disk' : Disk} {id : JsString}

theorem load_same (hsha : Function.Injective sha256) {roots : List JsString} {loading : Loading}
    {source : PolicySource} {loaded loaded' : PrivateSource × Loading}
    (h : load sha256 disk id roots loading source = .ok loaded)
    (h' : load sha256 disk' id roots loading source = .ok loaded') :
    loaded' = loaded ∧ fileBytes disk' source.path = fileBytes disk source.path := by
  unfold load at h h'
  obtain ⟨body, hread, h⟩ := bind_ok (unless_ok h)
  obtain ⟨body', hread', h'⟩ := bind_ok (unless_ok h')
  obtain ⟨rfl, hfile⟩ := readPolicySource_same hsha hread hread'
  exact ⟨Except.ok.inj ((unless_ok h').symm.trans (unless_ok h)), hfile⟩

theorem loadAll_same (hsha : Function.Injective sha256) {roots : List JsString}
    {sources : List PolicySource} {loading : Loading} {loaded loaded' : List PrivateSource × Loading}
    (h : loadAll sha256 disk id roots sources loading = .ok loaded)
    (h' : loadAll sha256 disk' id roots sources loading = .ok loaded') :
    loaded' = loaded ∧
      ∀ source ∈ sources, fileBytes disk' source.path = fileBytes disk source.path := by
  induction sources generalizing loading loaded loaded' with
  | nil => exact ⟨Except.ok.inj (h'.symm.trans h), nofun⟩
  | cons source rest ih =>
    rw [loadAll] at h h'
    obtain ⟨⟨first, next⟩, hload, h⟩ := bind_ok h
    obtain ⟨⟨first', next'⟩, hload', h'⟩ := bind_ok h'
    obtain ⟨hsame, hfile⟩ := load_same hsha hload hload'
    obtain ⟨rfl, rfl⟩ := Prod.mk.inj hsame
    obtain ⟨others, hrest, h⟩ := bind_ok h
    obtain ⟨others', hrest', h'⟩ := bind_ok h'
    obtain ⟨rfl, hfiles⟩ := ih hrest hrest'
    refine ⟨Except.ok.inj (h'.symm.trans h), fun other hother => ?_⟩
    rcases List.mem_cons.mp hother with rfl | hmem
    · exact hfile
    · exact hfiles other hmem

theorem parse_ok {α : Type} {fits : α → Bool} {value a : α} (h : parse fits value = .ok a) :
    a = value := by
  unfold parse at h
  split at h
  · exact (Except.ok.inj h).symm
  · exact nomatch h

theorem materialize_same (hsha : Function.Injective sha256) {definition : HostAgentPolicy}
    {policy policy' : MaterializedPolicy}
    (h : materialize sha256 disk id definition = .ok policy)
    (h' : materialize sha256 disk' id definition = .ok policy') :
    policy' = policy ∧ ∀ source ∈ HostAgentPolicy.sources definition,
      fileBytes disk' source.path = fileBytes disk source.path := by
  cases definition with
  | codex definition =>
    rw [materialize, materializeCodex] at h h'
    obtain ⟨⟨instructions, loading⟩, hload, h⟩ := bind_ok h
    obtain ⟨⟨instructions', loading'⟩, hload', h'⟩ := bind_ok h'
    obtain ⟨hsame, hfiles⟩ := loadAll_same hsha hload hload'
    obtain ⟨rfl, rfl⟩ := Prod.mk.inj hsame
    obtain ⟨⟨skills, last⟩, hskills, h⟩ := bind_ok h
    obtain ⟨⟨skills', last'⟩, hskills', h'⟩ := bind_ok h'
    obtain ⟨hsame', hfiles'⟩ := loadAll_same hsha hskills hskills'
    obtain ⟨rfl, rfl⟩ := Prod.mk.inj hsame'
    refine ⟨Except.ok.inj (h'.symm.trans h), fun source hsource => ?_⟩
    rcases List.mem_append.mp hsource with hmem | hmem
    · exact hfiles source hmem
    · exact hfiles' source hmem
  | openCode definition =>
    rw [materialize, materializeOpenCode] at h h'
    obtain ⟨⟨source, loading⟩, hload, h⟩ := bind_ok h
    obtain ⟨⟨source', loading'⟩, hload', h'⟩ := bind_ok h'
    obtain ⟨hsame, hfile⟩ := load_same hsha hload hload'
    obtain ⟨rfl, rfl⟩ := Prod.mk.inj hsame
    refine ⟨Except.ok.inj (h'.symm.trans h), fun other hother => ?_⟩
    rw [List.mem_singleton.mp hother]
    exact hfile

variable {policy : MaterializedPolicy}

theorem materialize_digest {definition : HostAgentPolicy}
    (h : materialize sha256 disk id definition = .ok policy) :
    policy.metadata.digest = definitionDigest sha256 id definition := by
  cases definition with
  | codex definition =>
    rw [materialize, materializeCodex] at h
    obtain ⟨⟨instructions, loading⟩, -, h⟩ := bind_ok h
    obtain ⟨⟨skills, last⟩, -, h⟩ := bind_ok h
    obtain ⟨metadata, hmetadata, h⟩ := bind_ok (unless_ok h)
    obtain rfl := parse_ok h
    obtain rfl := parse_ok hmetadata
    rfl
  | openCode definition =>
    rw [materialize, materializeOpenCode] at h
    obtain ⟨⟨source, loading⟩, -, h⟩ := bind_ok h
    obtain ⟨prompt, -, h⟩ := bind_ok h
    obtain ⟨metadata, hmetadata, h⟩ := bind_ok (unless_ok h)
    obtain rfl := parse_ok h
    obtain rfl := parse_ok hmetadata
    rfl

variable {host : AgentPolicies} {runtime : JsString}

theorem resolve_ok {revision : JsString}
    (h : resolveApplicationPolicy sha256 disk host runtime id revision = .ok policy) :
    ∃ definition, List.lookup id host = some definition ∧
      materialize sha256 disk id definition = .ok policy := by
  unfold resolveApplicationPolicy at h
  have h := unless_ok (unless_ok h)
  cases hfound : List.lookup id host with
  | none =>
    rw [hfound] at h
    exact nomatch h
  | some definition =>
    rw [hfound] at h
    exact ⟨definition, rfl, unless_ok (unless_ok h)⟩

theorem verify_ok {accepted : ApplicationPolicyMetadata}
    (h : verifyApplicationPolicy sha256 disk host runtime accepted = .ok policy) :
    resolveApplicationPolicy sha256 disk host runtime accepted.id accepted.revision = .ok policy ∧
      policy.metadata.digest = accepted.digest := by
  unfold verifyApplicationPolicy at h
  obtain ⟨resolved, hresolved, h⟩ := bind_ok (unless_ok h)
  by_cases hsame : stableJson (metadataJson resolved.metadata) = stableJson (metadataJson accepted)
  · obtain rfl := Except.ok.inj (unless_ok h)
    exact ⟨hresolved, metadataDigest_of_stableJson hsame⟩
  · rw [bne_iff_ne.mpr hsame] at h
    exact nomatch h

end

/-- For every two hosts and two states of the files: a policy that the metadata of a materialized one
admit is that policy, made of the same definition and of the same bytes in every file. -/
theorem verify_same {sha256 : List UInt8 → JsString} (hsha : Function.Injective sha256)
    {disk disk' : Disk} {host host' : AgentPolicies} {runtime runtime' id revision : JsString}
    {policy policy' : MaterializedPolicy}
    (hfirst : resolveApplicationPolicy sha256 disk host runtime id revision = .ok policy)
    (hsecond : verifyApplicationPolicy sha256 disk' host' runtime' policy.metadata = .ok policy') :
    policy' = policy ∧ ∃ definition, List.lookup id host = some definition ∧
      List.lookup id host' = some definition ∧
      ∀ source ∈ HostAgentPolicy.sources definition,
        fileBytes disk' source.path = fileBytes disk source.path := by
  obtain ⟨hresolved, hdigest⟩ := verify_ok hsecond
  obtain ⟨definition, hfound, hmade⟩ := resolve_ok hfirst
  obtain ⟨definition', hfound', hmade'⟩ := resolve_ok hresolved
  rw [materialize_digest hmade, materialize_digest hmade'] at hdigest
  obtain ⟨hid, rfl⟩ := definitionDigest_injective hsha hdigest
  rw [hid] at hmade' hfound'
  obtain ⟨rfl, hfiles⟩ := materialize_same hsha hmade hmade'
  exact ⟨rfl, definition', hfound, hfound', hfiles⟩

/-! ### A small host -/

def brief : String := "Be brief.\n"

def briefDigest : JsString :=
  jsString "96fb1c7f068c5ce63e2b45fc4aea602d48d5302be6ca033f3e1f0c7148558a49"

def somePolicy : CodexAgentPolicy where
  revision := jsString "1"
  trustedRoots := [jsString "/etc/ccmux"]
  instructionSources := [⟨jsString "rules", jsString "/etc/ccmux/rules.md", briefDigest⟩]
  skills := []

def someHost : AgentPolicies := [(jsString "reviewer", .codex somePolicy)]

def asciiBytes (text : String) : List UInt8 := text.toList.map fun c => UInt8.ofNat c.toNat

def policyDigest : JsString :=
  jsString "f5cd100ad68e1fc3bdb57b5d42021be92da84d8c96139e86b8f45c2ec0b75451"

/-- The digests of the two texts here; any other text is its own digest, behind a letter that no
digest has. -/
def someSha256 (bytes : List UInt8) : JsString :=
  if bytes = asciiBytes brief then briefDigest
  else if bytes = utf8Bytes (stableJson (definitionJson (jsString "reviewer") (.codex somePolicy)))
    then policyDigest
  else 122 :: bytes.map UInt8.toUInt16

theorem someSha256_injective : Function.Injective someSha256 := by
  have hdigests : briefDigest ≠ policyDigest := by decide
  have hbrief : ∀ rest, briefDigest ≠ 122 :: rest := fun rest h =>
    absurd (congrArg List.head? h) (by rw [List.head?_cons]; decide)
  have hpolicy : ∀ rest, policyDigest ≠ 122 :: rest := fun rest h =>
    absurd (congrArg List.head? h) (by rw [List.head?_cons]; decide)
  intro a b h
  unfold someSha256 at h
  split at h
  · next ha =>
    split at h
    · next hb => exact ha.trans hb.symm
    · split at h
      · exact absurd h hdigests
      · exact absurd h (hbrief _)
  · split at h
    · next ha =>
      split at h
      · exact absurd h.symm hdigests
      · split at h
        · next hb => exact ha.trans hb.symm
        · exact absurd h (hpolicy _)
    · split at h
      · exact absurd h.symm (hbrief _)
      · split at h
        · exact absurd h.symm (hpolicy _)
        · have hbytes := (List.cons.inj h).2
          refine List.map_injective_iff.mpr (fun x y hxy => ?_) hbytes
          have hvalue := congrArg UInt16.toNat hxy
          rw [UInt8.toNat_toUInt16, UInt8.toNat_toUInt16] at hvalue
          exact UInt8.toNat_inj.mp hvalue

/-- A file system with one file, read in one piece or in two. -/
def someDisk (reads : List (List UInt8)) : Disk where
  uid := some 501
  realpath := some
  lstat := fun path => some
    { isFile := path == jsString "/etc/ccmux/rules.md"
      isDirectory := path != jsString "/etc/ccmux/rules.md"
      isSymbolicLink := false, mode := 0o644, uid := 0, size := 10, ino := 1, dev := 1
      mtimeMs := 0, ctimeMs := 0 }
  openSync := fun path =>
    let stat : Stat :=
      { isFile := true, isDirectory := false, isSymbolicLink := false, mode := 0o644, uid := 0
        size := 10, ino := 1, dev := 1, mtimeMs := 0, ctimeMs := 0 }
    some { before := stat, reads := some reads, after := some stat, visible := some stat
           realpath := some path }

def someMaterialized : MaterializedPolicy :=
  .codex
    { id := jsString "reviewer", revision := jsString "1", digest := policyDigest
      runtime := jsString "codex"
      sources := [⟨jsString "rules", briefDigest, .instructions⟩]
      capabilities := [.developerInstructions] }
    [⟨⟨jsString "rules", jsString "/etc/ccmux/rules.md", briefDigest⟩, brief.toList⟩] []

theorem verify_same_someHost :
    verifyApplicationPolicy someSha256 (someDisk [asciiBytes "Be b", asciiBytes "rief.\n"]) someHost
        (jsString "codex") someMaterialized.metadata = .ok someMaterialized ∧
      fileBytes (someDisk [asciiBytes "Be b", asciiBytes "rief.\n"])
          (jsString "/etc/ccmux/rules.md") =
        fileBytes (someDisk [asciiBytes brief]) (jsString "/etc/ccmux/rules.md") := by
  have hfirst : resolveApplicationPolicy someSha256 (someDisk [asciiBytes brief]) someHost
      (jsString "codex") (jsString "reviewer") (jsString "1") = .ok someMaterialized := by
    decide +kernel
  have hsecond : verifyApplicationPolicy someSha256
      (someDisk [asciiBytes "Be b", asciiBytes "rief.\n"]) someHost (jsString "codex")
      someMaterialized.metadata = .ok someMaterialized := by decide +kernel
  obtain ⟨-, definition, hfound, -, hfiles⟩ :=
    verify_same someSha256_injective hfirst hsecond
  obtain rfl : HostAgentPolicy.codex somePolicy = definition := Option.some.inj hfound
  exact ⟨hsecond, hfiles _ (List.mem_singleton_self _)⟩

end Ccmux.Policy.Resolve
