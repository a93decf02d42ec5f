import OoreBuild.Lib.Glob

/-!
# When a webhook starts builds

Two languages say which webhooks start builds. A pipeline's trigger settings (`TriggerConfig`)
list events, branch and tag globs and path globs, where an empty list lets everything through.
A version 2 file's `on` (`TriggerSpec`) names each kind of event on its own. `mapTriggers`
writes trigger settings as an `on`, `unmapTriggers` reads an `on` back into trigger settings.
-/

namespace OoreBuild

open Text

/-! ## Trigger settings -/

/-- A cron schedule that starts a build on a branch. -/
structure ScheduleTrigger where
  cron : Text
  branch : Option Text
  deriving DecidableEq, Repr

structure TriggerConfig where
  events : List Text
  branches : List Text
  tags : List Text
  paths : List Text
  pathsIgnore : List Text
  schedules : List ScheduleTrigger
  deriving DecidableEq, Repr

/-- Map a provider's event name to its canonical name. The names compared with are ASCII and no
other character lowercases to one of their letters, so only ASCII letters are lowercased. -/
def normalizeEvent (eventType : Text) : Text :=
  if eventType = "Push Hook" then "push"
  else if eventType = "Merge Request Hook" then "pull_request"
  else if eventType = "Tag Push Hook" then "tag_push"
  else toAsciiLowercase eventType

/-- Glob match on the bytes of a ref. -/
def globMatch (pattern value : Text) : Bool := Glob.wildcardMatch (bytes pattern) (bytes value)

/-- Match a path against an artifact pattern: `*` and `?` stay within one segment, `**` spans
segments, and a pattern without `/` matches the file name anywhere. -/
def artifactPatternMatches (pattern relativePath : Text) : Bool :=
  let pattern := trim pattern
  let path := split (· = '/') relativePath
  if '/' ∉ pattern then
    match path.getLast? with
    | some name => globMatch pattern name
    | none => false
  else Glob.pathMatches ("**" : Text) globMatch (split (· = '/') pattern) path

/-- Match a changed path against a trigger path glob. A pattern ending in `/` matches everything
below that directory. -/
def changedPathMatches (pattern path : Text) : Bool :=
  let pattern := trim pattern
  if pattern.getLast? = some '/' then artifactPatternMatches (pattern.dropLast ++ "/**") path
  else artifactPatternMatches pattern path

def anyGlob (patterns : List Text) (reference : Text) : Bool :=
  patterns.any fun pattern => globMatch pattern reference

def anyPath (patterns : List Text) (file : Text) : Bool :=
  patterns.any fun pattern => changedPathMatches pattern file

namespace TriggerConfig

def shouldTrigger (config : TriggerConfig) (eventType : Text) (branch tag : Option Text) : Bool :=
  if !config.events.isEmpty &&
      !config.events.any (fun e => normalizeEvent e == normalizeEvent eventType) then false
  else if config.branches.isEmpty && config.tags.isEmpty then true
  else
    let (patterns, reference) := match tag with
      | some tag => (config.tags, some tag)
      | none => (config.branches, branch)
    match reference with
    | some reference => anyGlob patterns reference
    | none => false

def hasPathFilters (config : TriggerConfig) : Bool :=
  !config.paths.isEmpty || !config.pathsIgnore.isEmpty

/-- Whether the changed files pass `paths` and `paths_ignore`. An unknown change set never
suppresses a build. -/
def pathsMatch (config : TriggerConfig) (changedFiles : Option (List Text)) : Bool :=
  if config.paths.isEmpty && config.pathsIgnore.isEmpty then true
  else match changedFiles with
    | none => true
    | some files => files.any fun file =>
        (config.paths.isEmpty || anyPath config.paths file) && !anyPath config.pathsIgnore file

end TriggerConfig

/-! ## A file's `on` -/

/-- `true`, `false`, or a list of branches. -/
inductive BranchTrigger where
  | off
  | allBranches
  | branches (patterns : List Text)
  deriving DecidableEq, Repr

structure TriggerSpec where
  push : Option BranchTrigger
  pullRequest : Option BranchTrigger
  tag : List Text
  paths : List Text
  deriving DecidableEq, Repr

inductive TriggerEvent where
  | push (branch : Text)
  | pullRequest (targetBranch : Option Text)
  | tag (tag : Text)
  deriving DecidableEq, Repr

def BranchTrigger.matchesBranch (trigger : BranchTrigger) (branch : Option Text) : Bool :=
  match trigger with
  | .off => false
  | .allBranches => true
  | .branches patterns =>
    match branch with
    | some branch => patterns.any fun pattern => globMatch (trim pattern) branch
    | none => false

namespace TriggerSpec

def matchesRef (on : TriggerSpec) : TriggerEvent → Bool
  | .push branch => on.push.any fun push => push.matchesBranch (some branch)
  | .pullRequest target => on.pullRequest.any fun pull => pull.matchesBranch target
  | .tag tag => on.tag.any fun pattern => globMatch (trim pattern) tag

/-- Whether `paths` narrows push and pull request events. -/
def hasPathFilters (on : TriggerSpec) : Bool := !on.paths.isEmpty

/-- Whether a changed file matches `paths`. -/
def pathsMatch (on : TriggerSpec) (changedFiles : Option (List Text)) : Bool :=
  if on.hasPathFilters then
    match changedFiles with
    | none => true
    | some files => files.any fun file => anyPath on.paths file
  else true

end TriggerSpec

/-! ## A webhook revision -/

/-- What a webhook says about the revision, after the provider's payload is normalized. -/
structure Revision where
  /-- The provider's event name. -/
  eventType : Text
  branch : Option Text
  tag : Option Text
  targetBranch : Option Text
  /-- `none` when the provider did not say. -/
  changedFiles : Option (List Text)
  deriving DecidableEq, Repr

namespace Revision

/-- Tag pushes arrive as `push` on GitHub; they are filtered as `tag_push`. -/
def event (revision : Revision) : Text :=
  if revision.tag.isSome then "tag_push" else revision.eventType

def canonicalEvent (revision : Revision) : Text := normalizeEvent revision.event

/-- The event an `on` can match: a push, a pull request or a tag. -/
def fileEvent (revision : Revision) : Option TriggerEvent :=
  match revision.tag, revision.branch with
  | some tag, _ => some (.tag tag)
  | none, branch =>
    if revision.canonicalEvent = "push" then branch.map .push
    else if revision.canonicalEvent = "pull_request" then
      some (.pullRequest revision.targetBranch)
    else none

end Revision

/-- Whether trigger settings start a build for the revision. Tags ignore the path filters. -/
def TriggerConfig.starts (config : TriggerConfig) (revision : Revision) : Bool :=
  config.shouldTrigger revision.event revision.branch revision.tag &&
    (revision.tag.isSome || (!config.hasPathFilters || config.pathsMatch revision.changedFiles))

def TriggerSpec.starts (on : TriggerSpec) (revision : Revision) : Bool :=
  (revision.fileEvent.any fun event => on.matchesRef event) &&
    (revision.tag.isSome || (!on.hasPathFilters || on.pathsMatch revision.changedFiles))

/-! ## Writing trigger settings as `on` -/

/-- The `on` a pipeline's trigger settings map to. `push = some []` is every branch. -/
structure OnSpec where
  push : Option (List Text)
  pullRequest : Bool
  tag : List Text
  paths : List Text
  deriving DecidableEq, Repr

/-- The file's `on` that `render_on` writes. -/
def OnSpec.toSpec (on : OnSpec) : TriggerSpec where
  push := on.push.map fun branches =>
    if branches.isEmpty then .allBranches else .branches branches
  pullRequest := if on.pullRequest then some .allBranches else none
  tag := on.tag
  paths := if on.push.isNone && !on.pullRequest && on.tag.isEmpty then [] else on.paths

/-- The patterns without surrounding whitespace, blank ones dropped. -/
def trimmed (patterns : List Text) : List Text := (patterns.map trim).filter (· ≠ [])

/-- Whether the trigger settings let the canonical event through. -/
def TriggerConfig.listed (triggers : TriggerConfig) (event : Text) : Bool :=
  triggers.events.isEmpty || triggers.events.any fun listed => normalizeEvent listed == event

def mapTriggers (triggers : TriggerConfig) : Except Text OnSpec :=
  let branches := trimmed triggers.branches
  let tags := trimmed triggers.tags
  let paths := trimmed triggers.paths
  if !(trimmed triggers.pathsIgnore).isEmpty then
    .error "they ignore changed paths, which `on` cannot express"
  else if triggers.listed "pull_request" && !branches.isEmpty then
    .error "their branch filter matches a pull request's source branch, while on.pull_request.branches matches the branch it targets"
  else
    let everyRef := branches.isEmpty && tags.isEmpty
    let push := if triggers.listed "push" && (everyRef || !branches.isEmpty) then some branches
      else none
    let pullRequest := triggers.listed "pull_request" && everyRef
    let tag := if !triggers.listed "tag_push" then []
      else if everyRef then [("*" : Text)]
      else tags
    let paths := if push.isSome || pullRequest then paths else []
    .ok { push, pullRequest, tag, paths }

/-! ## Reading `on` back into trigger settings -/

def tagFilter : Text :=
  "the trigger settings' tag filter turns off branch events unless branches are listed, so list the branches under `push.branches`"

/-- The events, branches and tags of the plainest trigger settings for an `on`. -/
def plainestTriggers (on : OnSpec) : Except Text (List Text × List Text × List Text) :=
  let everyTag := on.tag == [("*" : Text)]
  if on.pullRequest then
    if on.push.any fun branches => !branches.isEmpty then
      .error "with pull requests on, the trigger settings' branch filter would also filter pull requests by their source branch; use `push: true` or turn pull requests off"
    else if !on.tag.isEmpty && !everyTag then
      .error ("with pull requests on, " ++ tagFilter ++ ", which pull requests cannot use")
    else
      .ok ((if on.push.isSome then [("push" : Text)] else []) ++ [("pull_request" : Text)] ++
        (if everyTag then [("tag_push" : Text)] else []), [], [])
  else match on.push with
    | some (first :: rest) =>
      if on.tag.isEmpty then .ok ([("push" : Text)], first :: rest, [])
      else .ok ([("push" : Text), ("tag_push" : Text)], first :: rest, on.tag)
    | some [] =>
      if !on.tag.isEmpty && !everyTag then .error ("with `push: true`, " ++ tagFilter)
      else .ok ([("push" : Text)] ++ (if everyTag then [("tag_push" : Text)] else []), [], [])
    | none =>
      if on.tag.isEmpty then
        .error "it starts no webhook builds, which the trigger settings cannot express; remove `on` to keep the pipeline's trigger settings"
      else .ok ([("tag_push" : Text)], [], if everyTag then [] else on.tag)

/-- Trigger settings for `on`, keeping the pipeline's schedules: the base itself when it already
maps to `on`, else the plainest settings that do. -/
def unmapTriggers (on : OnSpec) (base : TriggerConfig) : Except Text TriggerConfig :=
  if mapTriggers base = .ok on then .ok base
  else
    match plainestTriggers on with
    | .error reason => .error reason
    | .ok (events, branches, tags) =>
      let config : TriggerConfig :=
        { events, branches, tags, paths := on.paths, pathsIgnore := [],
          schedules := base.schedules }
      if mapTriggers config = .ok on then .ok config
      else .error "the trigger settings cannot express it exactly; please report this"

end OoreBuild
