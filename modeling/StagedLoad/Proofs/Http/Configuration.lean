import StagedLoad.Proofs.Http.Accounting
import StagedLoad.Proofs.Http.RequestUri

/-!
# Faults of the configuration

A client looks at a request again before it sends it.  What it looks for was not all looked for
when the workload was built: the base of a workload has to be one of the web, but the URLs that
are read against it do not, and nobody has looked at the headers.  So there are requests that
fail in every iteration, whatever the network does, and they are counted like those that the
target fails.

## Main definitions

* `FailsByConfiguration` — an answer that the network has no part in.
* `Url.Sendable`, `RequestSpec.Sendable` — what the client does not object to, stated without it.

## Main results

* `HttpRequest.fault?_eq_none_iff` — when a client sends a request.
* `Client.failsByConfiguration_send` — only the client's own objections fail by configuration.
* `HttpWorkload.fails_by_configuration_iff` — **which requests of a workload fail by
  configuration**.
-/

namespace StagedLoad

/-! ### Answers -/

/-- The kinds of faults that a request has by its configuration. -/
def configurationKinds : List TransportKind :=
  [.invalidUrl, .unsupportedScheme, .headerName, .headerValue]

/-- An answer is a fault of the configuration. -/
def FailsByConfiguration (a : HttpWorkload.Answer) : Prop :=
  ∃ fault, a.1 = .error fault ∧ fault.kind ∈ configurationKinds

/-! ### Requests -/

/-- A URL of the web that a connection accepts. -/
structure Url.Sendable (u : Url) : Prop where
  /-- It is one of the web. -/
  web : u.isWeb = true
  /-- It is not too long. -/
  short : u.render.utf8ByteSize ≤ RequestUri.greatestLength
  /-- Its host has no character that only domains may have. -/
  host : ∀ h, u.host = some h → ∀ c ∈ h.chars, ¬ RequestUri.Unsendable c

theorem Header.fault?_eq_none_iff {h : String × String} :
    Header.fault? h = none ↔ Header.isName h.1 = true ∧ Header.isValue h.2 = true := by
  unfold Header.fault?
  cases Header.isName h.1 <;> cases Header.isValue h.2 <;> simp

namespace HttpRequest

variable {r : HttpRequest} {u : Url}

/-- What the client objects to is a fault of the configuration. -/
theorem kind_mem_of_fault? {fault : TransportFault} (h : r.fault? = some fault) :
    fault.kind ∈ configurationKinds := by
  have hurl : TransportKind.invalidUrl ∈ configurationKinds := by decide
  have hscheme : TransportKind.unsupportedScheme ∈ configurationKinds := by decide
  have hheader : ∀ h, Header.fault? h = some fault → fault.kind ∈ configurationKinds := by
    intro h hfault
    unfold Header.fault? at hfault
    split at hfault
    · cases hfault
      decide
    split at hfault <;> cases hfault
    decide
  unfold fault? at h
  split at h
  · cases h
    exact hurl
  split at h
  · cases h
    exact hscheme
  split at h
  · cases h
    exact hurl
  · obtain ⟨header, -, hfault⟩ := List.exists_of_findSome?_eq_some h
    exact hheader header hfault

/-- The client does not object to a web URL that a connection accepts. -/
theorem fault?_of_wellFormed (hu : u.WellFormed) (hr : r.url = u.render) :
    r.fault? = none ↔ u.Sendable ∧ ∀ h ∈ r.headers, Header.fault? h = none := by
  obtain ⟨v, hread, hweb⟩ := hu.exists_parse?
  obtain ⟨h, hhost, -⟩ := hu.host
  have haccepts : RequestUri.accepts r.url = true ↔ u.Sendable := by
    rw [hr, RequestUri.accepts_render_iff hu hhost]
    refine ⟨fun ⟨hshort, hchars⟩ => ⟨Url.isWeb_iff.mpr hu.scheme, hshort, ?_⟩,
      fun hsend => ⟨hsend.short, hsend.host h hhost⟩⟩
    intro h' hhost'
    obtain rfl : h = h' := Option.some.inj (hhost.symm.trans hhost')
    exact hchars
  unfold fault?
  rw [hr, hread]
  dsimp only
  rw [hweb, ← haccepts, ← hr]
  cases RequestUri.accepts r.url with
  | false => simp
  | true => simp [List.findSome?_eq_none_iff]

/-- The client objects to every URL that is none of the web. -/
theorem fault?_of_not_web (hscheme : Url.IsScheme u.scheme) (hweb : u.isWeb = false)
    (hr : r.url = u.render) : r.fault? ≠ none := by
  unfold fault?
  rw [hr]
  cases hread : Url.parse? u.render with
  | none => exact Option.some_ne_none _
  | some v =>
    have hv : v.isWeb = false := by
      rw [Bool.eq_false_iff, ne_eq, Url.isWeb_iff, Url.scheme_of_parse?_render hscheme hread,
        ← Url.isWeb_iff, hweb]
      decide
    dsimp only
    rw [hv]
    exact Option.some_ne_none _

end HttpRequest

/-! ### Sending -/

namespace Client

variable {σ : Type}

/-- Nothing that comes back over a connection is a fault of the configuration. -/
theorem not_failsByConfiguration_await (limit : Option Duration) (e : Exchange) :
    ¬ FailsByConfiguration (await limit e) := by
  have htimeout : TransportKind.timeout ∉ configurationKinds := by decide
  have hrequest : TransportKind.request ∉ configurationKinds := by decide
  have hbody : TransportKind.bodyRead ∉ configurationKinds := by decide
  have hresult : ∀ fault, e.delivery.result = .error fault → fault.kind ∉ configurationKinds := by
    intro fault h
    cases hdelivery : e.delivery <;> rw [hdelivery] at h <;> cases h
    · exact hrequest
    · exact hbody
  rintro ⟨fault, hfault, hkind⟩
  unfold await at hfault
  split at hfault
  · split at hfault
    · cases hfault
      exact htimeout hkind
    · exact hresult fault hfault hkind
  · exact hresult fault hfault hkind

/-- Only what the client objects to fails by configuration, on every network. -/
theorem failsByConfiguration_send (network : Network σ) (r : HttpRequest) (s : σ) :
    FailsByConfiguration (send network r s).1 ↔ r.fault? ≠ none := by
  unfold send
  cases hfault : r.fault? with
  | none => simp [not_failsByConfiguration_await]
  | some fault =>
    simp only [ne_eq, reduceCtorEq, not_false_eq_true, iff_true]
    exact ⟨fault, rfl, HttpRequest.kind_mem_of_fault? hfault⟩

end Client

/-! ### Workloads -/

/-- A request as it is configured that a client does not object to, against a base. -/
structure RequestSpec.Sendable (base : Url) (r : RequestSpec) : Prop where
  /-- Its URL is accepted. -/
  url : ∃ u, base.join? r.path = some u ∧ u.Sendable
  /-- The names of its headers can be sent. -/
  names : ∀ h ∈ withContentType r.headers r.body.contentType?, Header.isName h.1 = true
  /-- Their values can be sent. -/
  values : ∀ h ∈ withContentType r.headers r.body.contentType?, Header.isValue h.2 = true

/-- A request that was made ready is sent exactly if its configuration can be. -/
theorem fault?_of_prepare? {base : Url} (hbase : base.WellFormed) {timeout : Option Duration}
    {spec : RequestSpec} {r : PreparedRequest} (hprepare : prepare? base timeout spec = .ok r) :
    r.request.fault? = none ↔ spec.Sendable base := by
  unfold prepare? at hprepare
  split at hprepare
  · cases hprepare
  case h_2 u hjoin =>
    cases hprepare
    have hurl : (∃ u, base.join? spec.path = some u ∧ u.Sendable) ↔ u.Sendable := by
      rw [hjoin]
      simp
    rcases Url.join?_cases hbase hjoin with hu | ⟨hscheme, hweb⟩
    · rw [HttpRequest.fault?_of_wellFormed hu rfl]
      simp only [Header.fault?_eq_none_iff]
      exact ⟨fun ⟨hsend, hheaders⟩ => ⟨hurl.mpr hsend, fun h hh => (hheaders h hh).1,
          fun h hh => (hheaders h hh).2⟩,
        fun h => ⟨hurl.mp h.url, fun header hh => ⟨h.names header hh, h.values header hh⟩⟩⟩
    · refine iff_of_false (HttpRequest.fault?_of_not_web hscheme hweb rfl) fun h => ?_
      exact absurd (hurl.mp h.url).web (ne_true_of_eq_false hweb)

namespace HttpWorkload

variable {base : String} {specs : List RequestSpec} {timeout : Option Duration}
  {w : HttpWorkload} {σ : Type}

theorem forall₂_of_mapM {ε α β : Type} {f : α → Except ε β} {xs : List α} {ys : List β}
    (h : xs.mapM f = .ok ys) : List.Forall₂ (fun x y => f x = .ok y) xs ys := by
  induction xs generalizing ys with
  | nil =>
    cases h
    exact .nil
  | cons x xs ih =>
    rw [List.mapM_cons] at h
    cases hx : f x with
    | error fault => rw [hx] at h; cases h
    | ok y =>
      cases hxs : xs.mapM f with
      | error fault => rw [hx, hxs] at h; cases h
      | ok ys' =>
        rw [hx, hxs] at h
        cases h
        exact .cons hx (ih hxs)

/-- One request after the other fails by configuration or not. -/
theorem forall₂_of_answered {root : Url} (hroot : root.WellFormed) {network : Network σ}
    {s last : σ} {requests : List PreparedRequest} {answers : List Answer}
    (hanswered : Answered network s requests answers last)
    (hprepared : List.Forall₂ (fun spec r => prepare? root timeout spec = .ok r) specs requests) :
    List.Forall₂ (fun spec a => FailsByConfiguration a ↔ ¬ spec.Sendable root) specs answers := by
  induction hanswered generalizing specs with
  | done =>
    cases hprepared
    exact .nil
  | @sent s _ _ r _ _ _ hsend _ ih =>
    cases hprepared with
    | cons hspec hrest =>
      refine .cons ?_ (ih hrest)
      have hfails := Client.failsByConfiguration_send network r.request s
      rw [hsend] at hfails
      rw [← fault?_of_prepare? hroot hspec]
      exact hfails

/-- **Which requests of a workload fail by configuration**: in every iteration, on every network,
exactly those whose URL against the base is none of the web, too long, or one with a host that
cannot be sent, and those with a header that cannot be sent.  The base can always be sent. -/
theorem fails_by_configuration_iff (hbuild : build? base specs timeout = .ok w)
    (network : Network σ) (c : IterationContext) (s : σ) :
    ∃ root, Url.parse? base = some root ∧
      ∃ answers last o, Answered network s w.requests answers last ∧
        (w.workload network).invoke c s = (⟨o.latency.startedMillis, .outcome o⟩, last) ∧
        Reports w.requests answers o ∧
        List.Forall₂ (fun spec a => FailsByConfiguration a ↔ ¬ spec.Sendable root)
          specs answers := by
  obtain ⟨root, hroot, hweb, hrequests⟩ := exists_of_build? hbuild
  obtain ⟨answers, last, o, hanswered, hinvoke, hreports⟩ := invoke_workload w network c s
  exact ⟨root, hroot, answers, last, o, hanswered, hinvoke, hreports,
    forall₂_of_answered (Url.wellFormed_of_parse? hroot hweb) hanswered
      (forall₂_of_mapM hrequests)⟩

/-- Requests to the base, to a server of files, to a host that cannot be sent, and with the name of
a header that cannot. -/
def mixedRequests : List RequestSpec :=
  [{ name := "home", path := "/" }, { name := "files", path := "ftp://example.com/x" },
    { name := "odd", path := "//a\x60b/" },
    { name := "named", path := "/", headers := [("bad name", "x")] }]

/-- A network on which every request has an answer. -/
def answering : Network Unit where
  exchange _ s := (⟨Duration.ofMillis 4, .response 200 [] []⟩, s)

/-- The base of the requests, as it is read. -/
def localRoot : Url :=
  { scheme := ['h', 't', 't', 'p'],
    host := some (.domain ['l', 'o', 'c', 'a', 'l', 'h', 'o', 's', 't']), path := .segments [[]] }

/-- Of the four requests only the first one reaches the network. -/
theorem one_of_four_is_sent : ∃ w a₁ a₂ a₃ a₄ last,
    build? "http://localhost" mixedRequests none = .ok w ∧
    Answered answering () w.requests [a₁, a₂, a₃, a₄] last ∧ ¬ FailsByConfiguration a₁ ∧
    FailsByConfiguration a₂ ∧ FailsByConfiguration a₃ ∧ FailsByConfiguration a₄ := by
  obtain ⟨w, hbuild⟩ : ∃ w, build? "http://localhost" mixedRequests none = .ok w := ⟨_, rfl⟩
  obtain ⟨root, hroot, answers, last, o, hanswered, -, -, hfails⟩ :=
    fails_by_configuration_iff hbuild answering default ()
  obtain rfl : localRoot = root := Option.some.inj hroot
  obtain _ | ⟨hhome, _ | ⟨hfiles, _ | ⟨hodd, _ | ⟨hnamed, _ | _⟩⟩⟩⟩ := hfails
  refine ⟨w, _, _, _, _, last, hbuild, hanswered, fun h => hhome.mp h ?_, hfiles.mpr ?_,
    hodd.mpr ?_, hnamed.mpr ?_⟩
  · refine ⟨⟨localRoot, rfl, rfl, by decide, ?_⟩, by decide, by decide⟩
    intro h hhost
    cases hhost
    simp [Host.chars, RequestUri.Unsendable]
  · rintro ⟨⟨u, hjoin, hsend⟩, -, -⟩
    have hweb : (localRoot.join? "ftp://example.com/x").any Url.isWeb = false := rfl
    rw [hjoin, Option.any_some, hsend.web] at hweb
    cases hweb
  · rintro ⟨⟨u, hjoin, hsend⟩, -, -⟩
    have hhost : (localRoot.join? "//a\x60b/").bind Url.host = some (.domain ['a', '\x60', 'b']) :=
      rfl
    rw [hjoin] at hhost
    exact hsend.host _ hhost '\x60' (by decide) (by decide)
  · intro h
    exact absurd (h.names ("bad name", "x") (by decide)) (by decide)

/-- A request to a server of files is accepted when the workload is built, and then it fails in
every iteration on every network, which it never reaches. -/
theorem foreign_url_is_built : ∃ w,
    build? "http://127.0.0.1:1" [{ name := "a", path := "ftp://example.com/x" }] none = .ok w ∧
    ∀ (σ : Type) (network : Network σ) (s : σ),
      (w.iterate network s).1.requests = [⟨Duration.zero, true⟩] ∧
      ∃ r, w.requests = [r] ∧ Client.send network r.request s =
        ((.error (.unsupportedScheme "ftp://example.com/x"), Duration.zero), s) :=
  ⟨_, rfl, fun _ _ _ => ⟨rfl, _, rfl, rfl⟩⟩

end HttpWorkload

end StagedLoad
