/-
# Processing alias descriptions

An alias description is an object whose members name the aliases and their
sources, or an array of such objects. A source that ends in a wildcard stands
for every node below its stem: the traversal that collects them adds aliases to
the tree it runs on.
-/

import OsvrCore.Common.PathTree

set_option autoImplicit false

namespace OSVR.Common

open Math

def PRIORITY_KEY : Str := "$priority".toList
def WILDCARD_SUFFIX : Str := "/*".toList

/-- `AliasProcessorOptions`; `permitWildcard` only decides on a log message. -/
structure AliasProcessorOptions where
  permitRelativePath : Bool := false
  permitRelativeSource : Bool := false
  permitWildcard : Bool := false
  defaultPriority : AliasPriority := ALIASPRIORITY_AUTOMATIC

/-- Stop where the language leaves a read undefined: the JSON value may belong
to an element of the tree that has been replaced. -/
def checkReadable (readable : PathTree → Bool) : TreeProgram Unit := do
  if readable (← Program.get) then return () else Program.abort .undefined

/-- The path of a visited node without the starting path and one more character. -/
def relativePath (startingNode node : NodePath) : Str :=
  (getFullPath node).drop ((getFullPath startingNode).length + 1)

/-- The visitor of `applyWildcard`; null nodes are not visited. -/
def visitWildcard (functor : NodePath → Str → TreeProgram Bool) (startingNode node : NodePath) :
    TreeProgram Bool := do
  if (← TreeProgram.valueAt node).isNull then return false
  else functor node (relativePath startingNode node)

/-- The path before the wildcard. -/
def wildcardStem (pathWithWildcard : Str) : Str := pathWithWildcard.rdrop WILDCARD_SUFFIX.length

/-- `applyWildcard`. -/
def applyWildcard (fuel : ℕ) (node : NodePath) (pathWithWildcard : Str)
    (functor : NodePath → Str → TreeProgram Bool) : TreeProgram Bool := do
  let startingNode ← treePathRetrieve node (wildcardStem pathWithWildcard) false
  NamedTree.traverse (visitWildcard functor startingNode) fuel startingNode

/-- `doesPathContainWildcard`. -/
def doesPathContainWildcard (path : Str) : Bool := WILDCARD_SUFFIX.isSuffixOf path

namespace AutomaticAliases

section Definitions

variable (codec : JsonCodec) (opts : AliasProcessorOptions) (readable : PathTree → Bool)
  (devNode : NodePath)

/-- `m_processSingleEntry`. -/
def processSingleEntry (path source : Str) (priority : AliasPriority) : TreeProgram Bool :=
  addAliasFromSourceAndRelativeDest codec devNode source path priority

/-- `m_processEntry`. Setting the leaf of a source again replaces what an earlier
visit has set. -/
def processEntry (fuel : ℕ) (path : Str) (source : Json) (priority : AliasPriority) :
    TreeProgram Bool := do
  if !opts.permitRelativePath && !isPathAbsolute path then return false
  else
    let parsedSource ← TreeProgram.ofJson (ParsedAlias.parseValue codec source)
    let leaf := parsedSource.getLeaf
    if !opts.permitRelativeSource && !isPathAbsolute leaf then return false
    else if !doesPathContainWildcard leaf then
      processSingleEntry codec devNode path (parsedSource.getAlias codec) priority
    else if parsedSource.simple then
      applyWildcard fuel devNode leaf fun node relPath =>
        processSingleEntry codec devNode (path ++ '/' :: relPath) (getFullPath node) priority
    else
      applyWildcard fuel devNode leaf fun node relPath =>
        processSingleEntry codec devNode (path ++ '/' :: relPath)
          ((parsedSource.setLeaf (getFullPath node)).getAlias codec) priority

/-- The loop of `m_processObject` over the member names. -/
def processMembers (fuel : ℕ) (obj : Json) (priority : AliasPriority) :
    List Str → TreeProgram Bool
  | [] => return false
  | key :: keys => do
      if PRIORITY_KEY = key then processMembers fuel obj priority keys
      else
        checkReadable readable
        let source ← TreeProgram.ofJson (obj.index key)
        let changed ← processEntry codec opts devNode fuel key source priority
        let others ← processMembers fuel obj priority keys
        return changed || others

/-- The priority of the entries of an object. -/
def objectPriority (obj : Json) : Except JsonError AliasPriority := do
  match ← obj.member? PRIORITY_KEY with
  | some priority => return UInt8.ofInt (← priority.asInt)
  | none => return opts.defaultPriority

/-- `m_processObject`. -/
def processObject (fuel : ℕ) (obj : Json) : TreeProgram Bool := do
  let priority ← TreeProgram.ofJson (objectPriority opts obj)
  let keys ← TreeProgram.ofJson obj.getMemberNames
  processMembers codec opts readable devNode fuel obj priority keys

/-- An element of an array; what is no object is passed over. -/
def processElement (fuel : ℕ) (elt : Json) : TreeProgram Bool :=
  if elt.isObject then processObject codec opts readable devNode fuel elt else return false

/-- `m_processArray`; going to the next element and testing for the end read the
array too. -/
def processArray (fuel : ℕ) : List Json → TreeProgram Bool
  | [] => do
      checkReadable readable
      return false
  | elt :: rest => do
      checkReadable readable
      let changed ← processElement codec opts readable devNode fuel elt
      let others ← processArray fuel rest
      return changed || others

end Definitions

end AutomaticAliases

/-- `AliasProcessor::process`. -/
def AliasProcessorOptions.process (opts : AliasProcessorOptions) (codec : JsonCodec)
    (readable : PathTree → Bool) (fuel : ℕ) (node : NodePath) (val : Json) : TreeProgram Bool :=
  match val with
  | .arr items => AutomaticAliases.processArray codec opts readable node fuel items
  | .obj members => AutomaticAliases.processObject codec opts readable node fuel (.obj members)
  | .null | .bool _ | .int _ | .real _ | .str _ => return false

/-- `createJSONAlias`. -/
def createJSONAlias (path : Str) (destination : Json) : Json :=
  if path.isEmpty then .null else if destination.isNull then .null else .obj [(path, destination)]

def DESTINATION_KEY : Str := "destination".toList

/-- `convertRouteToAlias`. -/
def convertRouteToAlias (codec : JsonCodec) (val : Json) : Except JsonError Json :=
  match val with
  | .obj members =>
      match members.lookup DESTINATION_KEY, members.lookup SOURCE_KEY with
      | some destination, some source => do
          return createJSONAlias (← destination.asString codec) source
      | some _, none | none, some _ | none, none => return val
  | .null | .bool _ | .int _ | .real _ | .str _ | .arr _ => return val

/-- `applyPriorityToAlias`. -/
def applyPriorityToAlias (alias_ : Json) (priority : AliasPriority) : Json :=
  match alias_ with
  | .obj members => .obj (Json.insertMember PRIORITY_KEY (.int priority.toNat) members)
  | .null | .bool _ | .int _ | .real _ | .str _ | .arr _ => alias_

/-- `addAliasFromRoute`; a route that does not parse reads as null. -/
def addAliasFromRoute (codec : JsonCodec) (fuel : ℕ) (node : NodePath) (route : Str)
    (priority : AliasPriority) : TreeProgram Bool := do
  let alias_ ← TreeProgram.ofJson (convertRouteToAlias codec ((codec.parse route).getD .null))
  AliasProcessorOptions.process {} codec (fun _ => true) fuel node
    (applyPriorityToAlias alias_ priority)

end OSVR.Common
