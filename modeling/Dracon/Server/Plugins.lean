import Dracon.StaticContent.Plugin
import Mathlib.Data.List.Perm.Basic

set_option autoImplicit false

namespace Dracon.Plugins

abbrev CreateSession (Service : Type) := Request → Except Exc (Option Service)

structure ServerPlugin (Service : Type) where
  createSession : CreateSession Service
  order : UInt32

structure PluginFile (Service : Type) where
  isRegularFile : Bool := true
  -- `dlopen` succeeds
  opens : Bool := true
  -- the symbols, and what the first one returns; an exception of its own counts as a failure
  initPlugin : Option Bool := none
  createSession : Option (CreateSession Service)
  pluginOrder : Option UInt32

variable {Service : Type}

-- The constructor of `server_plugin`; a plugin that throws there is left out.
def PluginFile.load (file : PluginFile Service) : Option (ServerPlugin Service) := do
  if ¬ file.isRegularFile ∨ ¬ file.opens ∨ file.initPlugin = some false then none
  else
    let createSession ← file.createSession
    let order ← file.pluginOrder
    some { createSession, order }

def statusPlugin (writeResponse : Service) : ServerPlugin Service where
  createSession req :=
    .ok (if req.url = bytes "/server_status" ∧ req.method = bytes "GET" then some writeResponse else none)
  order := 0xffffffff / 2

def staticContent (files : StaticFiles) (serve : StaticSession → Service) : PluginFile Service where
  initPlugin := some (¬ files.urls.isEmpty)
  createSession := some fun req => (files.createSession req).map (Option.map serve)
  pluginOrder := some 0xffffffff

def loadPlugins (files : List (PluginFile Service)) (status : Option Service) : List (ServerPlugin Service) :=
  files.filterMap PluginFile.load ++ (status.map statusPlugin).toList

-- What `std::sort` may leave: plugins of the same order stand in any order.
structure IsSorted (plugins sorted : List (ServerPlugin Service)) : Prop where
  perm : sorted.Perm plugins
  ascending : sorted.Pairwise fun a b => ¬ b.order < a.order

def createSession (plugins : List (ServerPlugin Service)) (req : Request) : Except Exc (Option Service) :=
  match plugins with
  | [] => .ok none
  | plugin :: plugins =>
    match plugin.createSession req with
    | .ok none => createSession plugins req
    | result => result

-- The plugin ends the search: it has a service for the request, or it throws.
def ServerPlugin.claims (plugin : ServerPlugin Service) (req : Request) : Bool :=
  match plugin.createSession req with
  | .ok none => false
  | _ => true

theorem createSession_cons (plugin : ServerPlugin Service) (plugins : List (ServerPlugin Service)) (req : Request) :
    createSession (plugin :: plugins) req =
      if plugin.claims req then plugin.createSession req else createSession plugins req := by
  unfold ServerPlugin.claims
  rw [createSession]
  cases result : plugin.createSession req with
  | error exc => simp
  | ok service => cases service <;> simp

section Sorted

variable {plugins sorted other : List (ServerPlugin Service)} {req : Request}

theorem createSession_none (unclaimed : ∀ plugin ∈ plugins, plugin.claims req = false) :
    createSession plugins req = .ok none := by
  induction plugins with
  | nil => rfl
  | cons plugin plugins ih =>
    obtain ⟨here, rest⟩ := List.forall_mem_cons.mp unclaimed
    simp [createSession_cons, here, ih rest]

theorem createSession_least (ascending : sorted.Pairwise fun a b => ¬ b.order < a.order)
    (claimed : ∃ plugin ∈ sorted, plugin.claims req) :
    ∃ plugin ∈ sorted, plugin.claims req ∧ createSession sorted req = plugin.createSession req ∧
      ∀ other ∈ sorted, other.claims req → plugin.order ≤ other.order := by
  induction sorted with
  | nil => simp at claimed
  | cons first sorted ih =>
    obtain ⟨below, rest⟩ := List.pairwise_cons.mp ascending
    rw [createSession_cons]
    by_cases here : first.claims req
    · refine ⟨first, List.mem_cons_self, here, if_pos here, fun other mem _ => ?_⟩
      rcases List.mem_cons.mp mem with rfl | mem
      · exact UInt32.le_refl _
      · exact UInt32.not_lt.mp (below other mem)
    · have claimed : ∃ plugin ∈ sorted, plugin.claims req := by simpa [here] using claimed
      obtain ⟨plugin, mem, claims, served, least⟩ := ih rest claimed
      refine ⟨plugin, List.mem_cons_of_mem _ mem, claims, by rw [if_neg here, served], fun other mem claims => ?_⟩
      rcases List.mem_cons.mp mem with rfl | mem
      · exact absurd claims here
      · exact least other mem claims

end Sorted

/--
A request goes to a plugin that claims it and has the least order of those that do; nobody answers only what nobody claims.
When the plugins that claim a request have different orders, neither the order of the plugins directory nor the sort
has a say in who gets it.
-/
theorem request_goes_to_least_order {files files' : List (PluginFile Service)} {status : Option Service}
    {plugins plugins' : List (ServerPlugin Service)} (listed : files'.Perm files)
    (sorted : IsSorted (loadPlugins files status) plugins) (sorted' : IsSorted (loadPlugins files' status) plugins')
    (req : Request) :
    ((∀ plugin ∈ loadPlugins files status, plugin.claims req = false) ∧ createSession plugins req = .ok none ∨
      ∃ plugin ∈ loadPlugins files status, plugin.claims req ∧ createSession plugins req = plugin.createSession req ∧
        ∀ other ∈ loadPlugins files status, other.claims req → plugin.order ≤ other.order) ∧
    ((∀ a ∈ loadPlugins files status, ∀ b ∈ loadPlugins files status, a.claims req → b.claims req → a.order = b.order → a = b) →
      createSession plugins' req = createSession plugins req) := by
  have loaded : (loadPlugins files' status).Perm (loadPlugins files status) :=
    (listed.filterMap PluginFile.load).append_right _
  by_cases claimed : ∃ plugin ∈ loadPlugins files status, plugin.claims req
  · obtain ⟨plugin, mem, claims, served, least⟩ := createSession_least sorted.ascending
      (claimed.imp fun plugin => And.imp_left sorted.perm.mem_iff.mpr)
    have mem := sorted.perm.mem_iff.mp mem
    have least (other : ServerPlugin Service) (mem : other ∈ loadPlugins files status) :=
      least other (sorted.perm.mem_iff.mpr mem)
    refine ⟨.inr ⟨plugin, mem, claims, served, least⟩, fun apart => ?_⟩
    have perm' := sorted'.perm.trans loaded
    obtain ⟨plugin', mem', claims', served', least'⟩ := createSession_least sorted'.ascending
      (claimed.imp fun plugin => And.imp_left perm'.mem_iff.mpr)
    have same : plugin' = plugin := by
      apply apart plugin' (perm'.mem_iff.mp mem') plugin mem claims' claims
      exact UInt32.le_antisymm (least' plugin (perm'.mem_iff.mpr mem) claims) (least plugin' (perm'.mem_iff.mp mem') claims')
    rw [served, served', same]
  · have unclaimed (plugin : ServerPlugin Service) (mem : plugin ∈ loadPlugins files status) : plugin.claims req = false := by
      simpa using fun claims => claimed ⟨plugin, mem, claims⟩
    have none : createSession plugins req = .ok none :=
      createSession_none fun plugin mem => unclaimed plugin (sorted.perm.mem_iff.mp mem)
    have none' : createSession plugins' req = .ok Option.none :=
      createSession_none fun plugin mem => unclaimed plugin ((sorted'.perm.trans loaded).mem_iff.mp mem)
    exact ⟨.inl ⟨unclaimed, none⟩, fun _ => none'.trans none.symm⟩

theorem request_goes_to_least_order_echo :
    let echo : ServerPlugin String := ⟨fun req => .ok (if req.url = bytes "/echo" then some "echo" else none), 7⟩
    let quiet : ServerPlugin String := ⟨fun _ => .ok none, 7⟩
    let file (plugin : ServerPlugin String) : PluginFile String :=
      { createSession := some plugin.createSession, pluginOrder := some plugin.order }
    let files : StaticFiles := { urls := [(bytes "/", bytes "/var/www")] }
    let site : ServerPlugin String := ⟨fun req => (files.createSession req).map (Option.map fun _ => "file"), 0xffffffff⟩
    let broken : PluginFile String := { file echo with initPlugin := some false }
    let directory := [staticContent files fun _ => "file", file quiet, broken, file echo]
    let req : Request := { method := bytes "GET", url := bytes "/echo" }
    loadPlugins directory (some "status") = [site, quiet, echo, statusPlugin "status"] ∧
      createSession [quiet, echo, statusPlugin "status", site] req = createSession [echo, quiet, statusPlugin "status", site] req := by
  intro echo quiet file files site broken directory req
  have loaded : loadPlugins directory (some "status") = [site, quiet, echo, statusPlugin "status"] := rfl
  have last : [quiet, echo, statusPlugin "status", site].Perm [site, quiet, echo, statusPlugin "status"] :=
    List.perm_append_singleton site [quiet, echo, statusPlugin "status"]
  have sorted : IsSorted (loadPlugins directory (some "status")) [echo, quiet, statusPlugin "status", site] :=
    ⟨(List.Perm.swap quiet echo _).trans last, by decide⟩
  have sorted' : IsSorted (loadPlugins directory (some "status")) [quiet, echo, statusPlugin "status", site] :=
    ⟨last, by decide⟩
  refine ⟨loaded, (request_goes_to_least_order (List.Perm.refl directory) sorted sorted' req).2 ?_⟩
  rw [loaded]
  -- only `echo` and `site` claim it
  have silent : quiet.claims req = false ∧ (statusPlugin "status").claims req = false := by decide
  have apart : echo.order ≠ site.order := by decide
  intro a a_mem b b_mem a_claims b_claims same
  simp only [List.mem_cons, List.not_mem_nil, or_false] at a_mem b_mem
  rcases a_mem with rfl | rfl | rfl | rfl <;> rcases b_mem with rfl | rfl | rfl | rfl <;> simp_all

end Dracon.Plugins
