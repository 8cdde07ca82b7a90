import Mathlib.Data.List.DropRight
import Mathlib.Data.List.SplitOn
import Mathlib.Logic.Function.Basic
import TaiSkeleton.Lib.Dict
import TaiSkeleton.Lib.Run

/-!
# Stored templates and their caches

The renders of a worker take compiled templates out of a cache of fetches under the ids they are
asked for, and what these include out of the cache of the engine. A write goes to the storage and
then evicts the fetches it can name.
-/

namespace TaiSkeleton.Template

open Lib

/-- A template id, or the name that a template includes another by. -/
abbrev TemplateId := List Char

/-! ## Ids -/

/-- A part of a path that is resolved; the parts before it are in reverse. -/
def resolvePart (resolved : List TemplateId) (part : TemplateId) : List TemplateId :=
  if part = [] ∨ part = ['.'] then resolved
  else if part = ['.', '.'] then resolved.tail
  else part :: resolved

/-- The parts of `_TEMPLATE_ROOT`. -/
def templateRoot : List TemplateId := ["tai-template-root".toList]

/-- `safe_template_path` -/
def safeTemplatePath (path : TemplateId) : Bool :=
  let root := if path.head? = some '/' then [] else templateRoot
  !path.isEmpty && !path.contains '\\' && !path.contains '\x00' &&
    ((path.splitOn '/').foldl resolvePart root).reverse.take 1 == templateRoot

/-- The prefix of the ids under a directory. -/
def dirPrefix (path : TemplateId) : TemplateId := path.rdropWhile (· = '/') ++ ['/']

/-! ## The caches -/

/-- What a read of a stored path found, after so many writes of it. -/
structure Copy (π α : Type) where
  path : π
  asOf : ℕ
  text : Option α
deriving DecidableEq

/-- Where a call of `_fetch_and_compile` is. -/
inductive FetchState (π α : Type) where
  | loading
  /-- The storage has answered; the call has not gone on. -/
  | loaded (copy : Copy π α)
  /-- It has returned the template or raised that there is none. -/
  | finished (copy : Copy π α)
  /-- It has raised that the path is unsafe. -/
  | unsafePath

structure FetchAndCompile (π α : Type) where
  templateId : TemplateId
  state : FetchState π α

/-- A render. -/
structure Render (π α : Type) where
  /-- The writes of paths that had returned when it started, each with its number. -/
  returned : List (π × ℕ)
  /-- The fetch whose template it awaits. -/
  awaiting : Option ℕ
  /-- The texts it has in use. -/
  texts : List α
  /-- What it has taken of stored paths. -/
  uses : List (Copy π α)
  /-- The name whose template the engine is loading for it. -/
  including : Option TemplateId

/-- `upload_template`, `delete_template`, `delete_template_dir` -/
inductive WriteCall (α : Type) where
  | upload (path : TemplateId) (text : α)
  | delete (path : TemplateId)
  | deleteDir (path : TemplateId)

/-- A write that the storage has done and that has not returned, with the paths it wrote. -/
structure Write (π α : Type) where
  call : WriteCall α
  written : List (π × ℕ)

structure ResourceManager (π α : Type) where
  /-- The texts in the storage, and how often each path has been written. -/
  stored : π → Option α
  writes : π → ℕ
  returned : List (π × ℕ)
  /-- `_cache_enabled` -/
  cacheEnabled : Bool
  /-- `_get_compiled_template`: the fetch under each id. -/
  compiled : List (TemplateId × ℕ)
  /-- `_cached_template_ids` -/
  cachedTemplateIds : List TemplateId
  fetches : ℕ → Option (FetchAndCompile π α)
  /-- The cache of `_env`. -/
  engine : List (TemplateId × Copy π α)
  /-- The templates that a render's thread has loaded and the engine has not cached yet. -/
  loads : List (ℕ × TemplateId × Copy π α)
  renders : ℕ → Option (Render π α)
  writing : ℕ → Option (Write π α)

inductive Action (π α : Type) where
  /-- The storage writes; of a directory it deletes some paths, all where it does not fail. -/
  | store (w : ℕ) (call : WriteCall α) (removed : List π)
  /-- The eviction of a write, which then returns. -/
  | finish (w : ℕ)
  /-- A render by id looks the id up; a new fetch is called `fresh`. -/
  | renderById (r : ℕ) (templateId : TemplateId) (fresh : ℕ)
  /-- A render of an inline text, which its cache has under the text. -/
  | renderContent (r : ℕ) (text : α)
  /-- The storage answers a fetch. -/
  | load (f : ℕ)
  /-- A fetch goes on to its end. -/
  | compile (f : ℕ)
  /-- A render gets what it awaits. -/
  | deliver (r : ℕ)
  /-- A render comes to a template that one in use includes or extends. -/
  | getTemplate (r : ℕ) (name : TemplateId)
  /-- `_sync_loader` -/
  | syncLoader (r : ℕ)
  | cacheInclude (r : ℕ)
  /-- An entry expires or is evicted. -/
  | dropCompiled (templateId : TemplateId)
  | dropInclude (name : TemplateId)
  | clearCache

variable {π α : Type} [DecidableEq π]

/-- What a fetch has read. -/
def FetchAndCompile.copy (fetch : FetchAndCompile π α) : Option (Copy π α) :=
  match fetch.state with
  | .loaded copy | .finished copy => some copy
  | .loading | .unsafePath => none

namespace WriteCall

/-- The paths that a write writes, where the provider has the ids `norm`. -/
def paths (norm : TemplateId → π) (removed : List π) : WriteCall α → List π
  | .upload path _ | .delete path => [norm path]
  | .deleteDir _ => removed

/-- What it leaves at them. -/
def text : WriteCall α → Option α
  | .upload _ text => some text
  | .delete _ | .deleteDir _ => none

end WriteCall

namespace ResourceManager

variable (m : ResourceManager π α)

def setFetch (f : ℕ) (fetch : FetchAndCompile π α) : ResourceManager π α :=
  { m with fetches := Function.update m.fetches f (some fetch) }

def setRender (r : ℕ) (render : Render π α) : ResourceManager π α :=
  { m with renders := Function.update m.renders r (some render) }

/-- What the storage has at a path. -/
def read (path : π) : Copy π α := ⟨path, m.writes path, m.stored path⟩

/-- The write of a text, or of none, at some paths. -/
def put (paths : List π) (text : Option α) : ResourceManager π α :=
  { m with
    stored := fun path => if path ∈ paths then text else m.stored path
    writes := fun path => if path ∈ paths then m.writes path + 1 else m.writes path }

/-- `_evict_compiled` -/
def evictCompiled (templateId : TemplateId) : ResourceManager π α :=
  { m with
    compiled := if m.cacheEnabled then dictPop m.compiled templateId else m.compiled
    cachedTemplateIds := m.cachedTemplateIds.erase templateId }

/-- `_evict_compiled_prefix` -/
def evictCompiledPrefix (pre : TemplateId) : ResourceManager π α :=
  if m.cacheEnabled then
    { m with
      compiled := m.compiled.filter fun (templateId, _) =>
        !(m.cachedTemplateIds.contains templateId && pre.isPrefixOf templateId)
      cachedTemplateIds := m.cachedTemplateIds.filter fun templateId =>
        !pre.isPrefixOf templateId && (m.compiled.lookup templateId).isSome }
  else { m with cachedTemplateIds := [] }

/-- What a write evicts. -/
def evict : WriteCall α → ResourceManager π α
  | .upload path _ | .delete path => m.evictCompiled path
  | .deleteDir path => m.evictCompiledPrefix (dirPrefix path)

/-- The id of a fetch that has been answered, and the sweep of the ids that the cache has lost. -/
def track (templateId : TemplateId) : ResourceManager π α :=
  if m.cacheEnabled then
    let tracked := m.cachedTemplateIds.insert templateId
    { m with cachedTemplateIds :=
        if m.compiled.length < tracked.length then
          tracked.filter fun templateId => (m.compiled.lookup templateId).isSome
        else tracked }
  else m

/-- The cache of fetches has one under the id, or a new one is called. -/
def getCompiledTemplate (templateId : TemplateId) (fresh : ℕ) :
    Option (ResourceManager π α × ℕ) :=
  match if m.cacheEnabled then m.compiled.lookup templateId else none with
  | some f => some (m, f)
  | none =>
    match m.fetches fresh with
    | some _ => none
    | none =>
      let called := m.setFetch fresh ⟨templateId, .loading⟩
      if m.cacheEnabled then
        some ({ called with compiled := dictPut m.compiled templateId fresh }, fresh)
      else some (called, fresh)

/-- The storage answers a fetch, whose id may be unsafe. -/
def load (norm : TemplateId → π) (f : ℕ) (templateId : TemplateId) : ResourceManager π α :=
  if safeTemplatePath templateId then
    m.setFetch f ⟨templateId, .loaded (m.read (norm templateId))⟩
  else
    { m.setFetch f ⟨templateId, .unsafePath⟩ with compiled := dictPop m.compiled templateId }

/-- A fetch ends; one that raises leaves the cache. -/
def compile (f : ℕ) (templateId : TemplateId) (copy : Copy π α) : ResourceManager π α :=
  let ended := m.setFetch f ⟨templateId, .finished copy⟩
  match copy.text with
  | some _ => ended.track templateId
  | none => { ended with compiled := dictPop m.compiled templateId }

/-- A render takes a copy, and has its text in use. -/
def use (r : ℕ) (render : Render π α) (copy : Copy π α) : ResourceManager π α :=
  m.setRender r { render with
    awaiting := none
    including := none
    texts := copy.text.toList ++ render.texts
    uses := copy :: render.uses }

local instance id_lawful : LawfulBEq (List Char) := inferInstance

/-- The actions, where the provider has the ids `norm` and a text names the templates `refs`. -/
def next (norm : TemplateId → π) (refs : α → List TemplateId) :
    Action π α → Option (ResourceManager π α)
  | .store w call removed =>
    match m.writing w with
    | some _ => none
    | none =>
      let paths := call.paths norm removed
      let stored := m.put paths call.text
      let write : Write π α := ⟨call, paths.map fun path => (path, stored.writes path)⟩
      some { stored with writing := Function.update m.writing w (some write) }
  | .finish w =>
    (m.writing w).map fun write =>
      { m.evict write.call with
        returned := write.written ++ m.returned
        writing := Function.update m.writing w none }
  | .renderById r templateId fresh =>
    match m.renders r with
    | some _ => none
    | none => (m.getCompiledTemplate templateId fresh).map fun (m', f) =>
        m'.setRender r ⟨m.returned, some f, [], [], none⟩
  | .renderContent r text =>
    match m.renders r with
    | some _ => none
    | none => some (m.setRender r ⟨m.returned, none, [text], [], none⟩)
  | .load f =>
    match m.fetches f with
    | some ⟨templateId, .loading⟩ => some (m.load norm f templateId)
    | _ => none
  | .compile f =>
    match m.fetches f with
    | some ⟨templateId, .loaded copy⟩ => some (m.compile f templateId copy)
    | _ => none
  | .deliver r =>
    (m.renders r).bind fun render =>
      match render.awaiting.bind m.fetches with
      | some ⟨_, .finished copy⟩ => some (m.use r render copy)
      | some ⟨_, .unsafePath⟩ => some (m.setRender r { render with awaiting := none })
      | _ => none
  | .getTemplate r name =>
    (m.renders r).bind fun render =>
      if render.including = none ∧ name ∈ render.texts.flatMap refs then
        match m.engine.lookup name with
        -- a string from the loader is up to date for ever
        | some copy => some (m.use r render copy)
        | none => some (m.setRender r { render with including := some name })
      else none
  | .syncLoader r =>
    (m.renders r).bind fun render =>
      match render.including, m.loads.lookup r with
      | some name, none =>
        let copy := m.read (norm name)
        if safeTemplatePath name then
          match copy.text with
          | some _ => some { m with loads := dictPut m.loads r (name, copy) }
          -- `TemplateNotFound`
          | none => some (m.use r render copy)
        else some (m.setRender r { render with including := none })
      | _, _ => none
  | .cacheInclude r =>
    (m.renders r).bind fun render =>
      (m.loads.lookup r).map fun (name, copy) =>
        { m.use r render copy with
          engine := dictPut m.engine name copy
          loads := dictPop m.loads r }
  | .dropCompiled templateId => some { m with compiled := dictPop m.compiled templateId }
  | .dropInclude name => some { m with engine := dictPop m.engine name }
  | .clearCache =>
    if m.cacheEnabled then some { m with compiled := [], cachedTemplateIds := [] } else some m

end ResourceManager

/-- The runs of a worker, from a storage that nothing has been read of. -/
def renders (norm : TemplateId → π) (refs : α → List TemplateId) :
    System (ResourceManager π α) (Action π α) where
  init m := ∃ stored cacheEnabled, m = ⟨stored, fun _ => 0, [], cacheEnabled, [], [],
    fun _ => none, [], [], fun _ => none, fun _ => none⟩
  step m action m' := m.next norm refs action = some m'

end TaiSkeleton.Template
