/-
This file models the calls of `HttpRouter` and proves that it is a map in which the
last registration wins.

The routes are a vector. A registration replaces the handler of the entry with its
URL and method, or appends an entry, and a request is given to the first entry that
matches. No two entries have the same URL and method, so the vector is the registry
of what was registered since it was cleared last. Clearing keeps the default handler,
and a null handler changes nothing.
-/

import YYNet.Lib.Registry
import YYNet.Http.Server

namespace YYNet

open Registry

namespace HttpRouter

/-! ### The calls -/

/-- The constructor. -/
def create : HttpRouter where
  routes := []
  defaultHandler := defaultNotFoundHandler

/-- The loop of `route`: the routes with the handler of the first match replaced, or nothing when
no entry matches. -/
def updateRoute (url : List UInt8) (method : Method) (handler : HttpHandler) :
    List (List UInt8 × Method × HttpHandler) → Option (List (List UInt8 × Method × HttpHandler))
  | [] => none
  | entry :: rest =>
    if entry.1 = url ∧ entry.2.1 = method then some ((entry.1, entry.2.1, handler) :: rest)
    else (updateRoute url method handler rest).map (entry :: ·)

/-- `route`. A null handler is refused. -/
def route (router : HttpRouter) (url : List UInt8) (method : Method) :
    Option HttpHandler → HttpRouter
  | none => router
  | some handler =>
    match updateRoute url method handler router.routes with
    | some routes => { router with routes := routes }
    | none => { router with routes := router.routes ++ [(url, method, handler)] }

def get (router : HttpRouter) (url : List UInt8) (handler : Option HttpHandler) : HttpRouter :=
  router.route url .get handler

def post (router : HttpRouter) (url : List UInt8) (handler : Option HttpHandler) : HttpRouter :=
  router.route url .post handler

def put (router : HttpRouter) (url : List UInt8) (handler : Option HttpHandler) : HttpRouter :=
  router.route url .put handler

def del (router : HttpRouter) (url : List UInt8) (handler : Option HttpHandler) : HttpRouter :=
  router.route url .delete handler

def head (router : HttpRouter) (url : List UInt8) (handler : Option HttpHandler) : HttpRouter :=
  router.route url .head handler

def setDefaultHandler (router : HttpRouter) : Option HttpHandler → HttpRouter
  | none => router
  | some handler => { router with defaultHandler := handler }

def clear (router : HttpRouter) : HttpRouter := { router with routes := [] }

def size (router : HttpRouter) : Nat := router.routes.length

/-- The loop of `routeRequest`: the handlers it calls, and what it returns. -/
def dispatch (router : HttpRouter) (req : HttpRequest) :
    List (List UInt8 × Method × HttpHandler) → List HttpHandler × Bool
  | [] => ([router.defaultHandler], false)
  | entry :: rest =>
    if entry.1 = req.url ∧ entry.2.1 = req.method then ([entry.2.2], true)
    else dispatch router req rest

/-- `routeRequest` gives the request to the handlers of its loop. -/
theorem routeRequest_eq (router : HttpRouter) (req : HttpRequest) (resp : HttpResponse) :
    router.routeRequest req resp =
      (router.dispatch req router.routes).1.foldl (fun resp handler => handler req resp) resp := by
  rw [routeRequest]
  induction router.routes with
  | nil => rfl
  | cons entry rest inductionHypothesis =>
    by_cases found : entry.1 = req.url ∧ entry.2.1 = req.method
    · rw [List.find?_cons_of_pos (by simpa using found), dispatch, if_pos found]
      rfl
    · rw [List.find?_cons_of_neg (by simpa using found), dispatch, if_neg found]
      exact inductionHypothesis

/-- A call that changes the router. -/
inductive Call
  | route (url : List UInt8) (method : Method) (handler : Option HttpHandler)
  | get (url : List UInt8) (handler : Option HttpHandler)
  | post (url : List UInt8) (handler : Option HttpHandler)
  | put (url : List UInt8) (handler : Option HttpHandler)
  | del (url : List UInt8) (handler : Option HttpHandler)
  | head (url : List UInt8) (handler : Option HttpHandler)
  | setDefaultHandler (handler : Option HttpHandler)
  | clear

def call (router : HttpRouter) : Call → HttpRouter
  | .route url method handler => router.route url method handler
  | .get url handler => router.get url handler
  | .post url handler => router.post url handler
  | .put url handler => router.put url handler
  | .del url handler => router.del url handler
  | .head url handler => router.head url handler
  | .setDefaultHandler handler => router.setDefaultHandler handler
  | .clear => router.clear

/-! ### What the router is for -/

/-- What a call registers. -/
def Call.registration : Call → Option ((List UInt8 × Method) × HttpHandler)
  | .route url method handler => handler.map fun handler => ((url, method), handler)
  | .get url handler => handler.map fun handler => ((url, .get), handler)
  | .post url handler => handler.map fun handler => ((url, .post), handler)
  | .put url handler => handler.map fun handler => ((url, .put), handler)
  | .del url handler => handler.map fun handler => ((url, .delete), handler)
  | .head url handler => handler.map fun handler => ((url, .head), handler)
  | .setDefaultHandler _ => none
  | .clear => none

/-- The default handler a call sets. -/
def Call.byDefault : Call → Option HttpHandler
  | .setDefaultHandler handler => handler
  | _ => none

def Call.isClear : Call → Bool
  | .clear => true
  | _ => false

/-- What was registered behind the last call of `clear`, the first registration first. -/
def registered (calls : List Call) : List ((List UInt8 × Method) × HttpHandler) :=
  (calls.rtakeWhile fun call => !call.isClear).filterMap Call.registration

/-- The last default handler that is not null. -/
def lastDefault (calls : List Call) : HttpHandler :=
  ((calls.filterMap Call.byDefault).getLast?).getD defaultNotFoundHandler

/-! ### The routes as a registry -/

/-- An entry of the routes, with its URL and method as the key. -/
def keyed (entry : List UInt8 × Method × HttpHandler) : (List UInt8 × Method) × HttpHandler :=
  ((entry.1, entry.2.1), entry.2.2)

theorem updateRoute_keyed (url : List UInt8) (method : Method) (handler : HttpHandler)
    (routes : List (List UInt8 × Method × HttpHandler)) :
    ((updateRoute url method handler routes).getD (routes ++ [(url, method, handler)])).map keyed =
      assign (url, method) handler (routes.map keyed) := by
  induction routes with
  | nil => rfl
  | cons entry rest inductionHypothesis =>
    rw [updateRoute, List.map_cons, assign]
    by_cases found : entry.1 = url ∧ entry.2.1 = method
    · rw [if_pos found, if_pos (Prod.ext found.1 found.2)]
      rfl
    · have other : (keyed entry).1 ≠ (url, method) := fun same => found (Prod.mk.inj same)
      rw [if_neg found, if_neg other, ← inductionHypothesis]
      cases updateRoute url method handler rest <;> rfl

theorem route_routes (router : HttpRouter) (url : List UInt8) (method : Method)
    (handler : HttpHandler) :
    (router.route url method (some handler)).routes.map keyed =
      assign (url, method) handler (router.routes.map keyed) := by
  rw [← updateRoute_keyed, route]
  cases updateRoute url method handler router.routes <;> rfl

theorem route_defaultHandler (router : HttpRouter) (url : List UInt8) (method : Method)
    (handler : Option HttpHandler) :
    (router.route url method handler).defaultHandler = router.defaultHandler := by
  cases handler with
  | none => rfl
  | some handler =>
    rw [route]
    cases updateRoute url method handler router.routes <;> rfl

/-- A request is given to the handler that a lookup finds, or to the default one. -/
theorem dispatch_eq (router : HttpRouter) (req : HttpRequest)
    (routes : List (List UInt8 × Method × HttpHandler)) :
    router.dispatch req routes =
      match find (req.url, req.method) (routes.map keyed) with
      | some handler => ([handler], true)
      | none => ([router.defaultHandler], false) := by
  induction routes with
  | nil => rfl
  | cons entry rest inductionHypothesis =>
    rw [dispatch, List.map_cons, find]
    by_cases found : entry.1 = req.url ∧ entry.2.1 = req.method
    · rw [if_pos found, if_pos (Prod.ext found.1 found.2)]
      rfl
    · have other : (keyed entry).1 ≠ (req.url, req.method) := fun same => found (Prod.mk.inj same)
      rw [if_neg found, if_neg other]
      exact inductionHypothesis

/-! ### Calls one after another -/

/-- The routes are the registry of what was registered, and the default handler is the last one. -/
structure Agrees (router : HttpRouter) (calls : List Call) : Prop where
  routes : router.routes.map keyed = assignAll (registered calls)
  defaultHandler : router.defaultHandler = lastDefault calls

theorem registered_snoc (calls : List Call) (call : Call) :
    registered (calls ++ [call]) =
      if call.isClear then [] else registered calls ++ call.registration.toList := by
  rw [registered, List.rtakeWhile_concat]
  cases call.isClear with
  | true => rfl
  | false =>
    rw [if_pos (show (!false) = true from rfl), if_neg Bool.false_ne_true,
      List.filterMap_append]
    cases registration : call.registration <;> simp [registered, registration]

theorem lastDefault_snoc (calls : List Call) (call : Call) :
    lastDefault (calls ++ [call]) = call.byDefault.getD (lastDefault calls) := by
  rw [lastDefault, List.filterMap_append]
  cases isDefault : call.byDefault <;> simp [lastDefault, isDefault]

/-- A call of `route`, or of a function that calls it. -/
theorem Agrees.route {router : HttpRouter} {calls : List Call} (agrees : router.Agrees calls)
    {call : Call} (url : List UInt8) (method : Method) (handler : Option HttpHandler)
    (registers : call.registration = handler.map fun handler => ((url, method), handler))
    (keeps : call.isClear = false) (noDefault : call.byDefault = none) :
    (router.route url method handler).Agrees (calls ++ [call]) := by
  refine ⟨?_, ?_⟩
  · rw [registered_snoc, if_neg (by simp [keeps]), registers]
    cases handler with
    | none =>
      rw [Option.map_none, Option.toList_none, List.append_nil]
      exact agrees.routes
    | some handler =>
      rw [route_routes, agrees.routes, Option.map_some, Option.toList_some, assignAll_snoc]
  · rw [route_defaultHandler, lastDefault_snoc, noDefault]
    exact agrees.defaultHandler

/-- One call. -/
theorem Agrees.call {router : HttpRouter} {calls : List Call} (agrees : router.Agrees calls)
    (call : Call) : (router.call call).Agrees (calls ++ [call]) := by
  cases call with
  | route url method handler => exact agrees.route url method handler rfl rfl rfl
  | get url handler => exact agrees.route url .get handler rfl rfl rfl
  | post url handler => exact agrees.route url .post handler rfl rfl rfl
  | put url handler => exact agrees.route url .put handler rfl rfl rfl
  | del url handler => exact agrees.route url .delete handler rfl rfl rfl
  | head url handler => exact agrees.route url .head handler rfl rfl rfl
  | setDefaultHandler handler =>
    have same : registered (calls ++ [.setDefaultHandler handler]) = registered calls := by
      rw [registered_snoc]
      exact List.append_nil _
    refine ⟨?_, ?_⟩
    · rw [same, ← agrees.routes]
      cases handler <;> rfl
    · rw [lastDefault_snoc, ← agrees.defaultHandler]
      cases handler <;> rfl
  | clear =>
    refine ⟨?_, ?_⟩
    · rw [registered_snoc]
      rfl
    · rw [lastDefault_snoc]
      exact agrees.defaultHandler

theorem agrees_calls (calls : List Call) : (calls.foldl call create).Agrees calls := by
  induction calls using List.reverseRecOn with
  | nil => exact ⟨rfl, rfl⟩
  | append_singleton calls last inductionHypothesis =>
    rw [List.foldl_append]
    exact inductionHypothesis.call last

/-- After any calls, no two routes have the same URL and method, there are as many as different
pairs were registered since the last `clear`, and a request is given to exactly one handler: the
one registered last for its URL and method, or else the last default one. -/
theorem router_lastWins (calls : List Call) (req : HttpRequest) :
    ((calls.foldl call create).routes.map fun entry => (entry.1, entry.2.1)).Nodup ∧
      (calls.foldl call create).size = ((registered calls).map Prod.fst).toFinset.card ∧
      (calls.foldl call create).dispatch req (calls.foldl call create).routes =
        match last (req.url, req.method) (registered calls) with
        | some handler => ([handler], true)
        | none => ([lastDefault calls], false) := by
  have agrees := agrees_calls calls
  refine ⟨?_, ?_, ?_⟩
  · have distinct := nodup_assignAll (registered calls)
    rw [← agrees.routes, List.map_map] at distinct
    exact distinct
  · rw [← length_assignAll, ← agrees.routes, List.length_map]
    rfl
  · rw [dispatch_eq, agrees.routes, find_assignAll, agrees.defaultHandler]

/-- The second registration for a URL replaces the handler of the first one. -/
example (first second : HttpHandler) :
    ((create.get (text "/a") (some first)).get (text "/a") (some second)).routes =
      [(text "/a", .get, second)] := rfl

end HttpRouter

end YYNet
