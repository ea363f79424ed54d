import Eventing.Delimited
import Eventing.HttpTables
import Eventing.JsonText
import Eventing.Regex
import Eventing.StaticAssets

/-!
# Routing of HTTP requests

`performAppHTTPSetup` (`app_setup.go`) serves each HTTP entry of an application with a
`RegexpHandler` (`regex_http_handler.go`) of two routes, whose patterns come from the root URI
path and are matched anywhere in the path of a request. The handlers (`http_handlers.go`) take
segments of the request by their position and look them up. What `net/http` makes of a request
is a `Request`.
-/
namespace Eventing.Routing
open AssetEdits Delimited HttpTables KvStore Regex StaticAssets

/-- `MustCompile`, for patterns whose metacharacters are stars. -/
def mustCompile : Text → Pattern Char
  | [] => .empty
  | c :: '*' :: rest => .seq (.star fun d => d = c) (mustCompile rest)
  | c :: rest => .seq (.one fun d => d = c) (mustCompile rest)

def matchString (pattern : Pattern Char) (s : Text) : Bool := (pattern.search s).isSome

/-- The fields of `http.Request` and its URL that the routes and the handlers read. -/
structure Request where
  method : Text
  requestURI : Text
  path : Text
  host : Text
  urlHost : Text
  query : List (Text × Text)

inductive Handler
  | staticAssets
  | jsRequests
  deriving DecidableEq

structure Route where
  pattern : Pattern Char
  handler : Handler

def routes (c : HttpConfig) : List Route :=
  [⟨mustCompile (c.rootUriPath ++ "static_assets/".toList), .staticAssets⟩,
    ⟨mustCompile (c.rootUriPath ++ ['*']), .jsRequests⟩]

/-- The handler that `ServeHTTP` calls. -/
def route (routes : List Route) (r : Request) : Option Handler :=
  (routes.find? fun x => matchString x.pattern r.path).map Route.handler

structure HttpRequest where
  path : Text
  host : Text
  params : Text → Option Text

/-- What a handler does: it answers by itself, or sends a request to a worker. -/
inductive Answer
  | response (r : Response)
  | sendHTTPGet (handle : ℕ) (request : HttpRequest)
  | sendHTTPPost (handle : ℕ) (request : HttpRequest)
  | nothing
  | notFound

def Request.assetMethod (r : Request) : Method := if r.method = "GET".toList then .get else .other

def Request.urlValues (r : Request) (k : Text) : Option Text :=
  (r.query.find? fun p => p.1 = k).map Prod.snd

/-- There is no result where an index is out of range or an entry is nil. -/
def handleJsRequests (s : Tables) (r : Request) : Option Answer :=
  if r.method = "GET".toList then do
    let path ← (r.path.splitOn '/')[2]?
    let handle ← s.referrers.fwd r.host
    return .sendHTTPGet handle ⟨path, r.urlHost, fun _ => none⟩
  else if r.method = "POST".toList then do
    let path ← (r.path.splitOn '/')[2]?
    let handle ← s.referrers.fwd r.host
    return .sendHTTPPost handle ⟨path, r.urlHost, r.urlValues⟩
  else some .nothing

/-- `bucket` is the one that the application's entry has for its assets. -/
def serveHTTP (s : Tables) (bucket : Store Text StaticAsset) (routes : List Route) (r : Request) :
    Option Answer :=
  match route routes r with
  | some .staticAssets =>
      (handleStaticAssets s.uriPrefixes.fwd bucket r.assetMethod r.requestURI).map .response
  | some .jsRequests => handleJsRequests s r
  | none => some .notFound

/-- The segments that a handler indexes are there, and what it looks up has an entry. -/
def Preconditions (s : Tables) (r : Request) : Handler → Prop
  | .staticAssets => (∃ assetName, (r.requestURI.splitOn '/')[3]? = some assetName) ∧
      ∃ q appName, (r.requestURI.splitOn '/')[1]? = some q ∧ s.uriPrefixes.fwd q = some appName
  | .jsRequests => (∃ path, (r.path.splitOn '/')[2]? = some path) ∧
      ∃ handle, s.referrers.fwd r.host = some handle

def metacharacters : List Char := "\\.+*?()|[]\x7b\x7d^$".toList

/-- The root URI path is the prefix between slashes. -/
structure RootPath (c : HttpConfig) (p : Text) : Prop where
  eq : c.rootUriPath = '/' :: (p ++ ['/'])
  ne_nil : p ≠ []
  slash_notMem : '/' ∉ p
  plain : ∀ x ∈ p, x ∉ metacharacters

/-- The application has been loaded and set up, after whatever happened before. -/
def SetUp (s : Tables) (appName : Text) (httpConfigs : List HttpConfig) : Prop :=
  ∃ before : Tables,
    (before.loadApp appName httpConfigs).performAppHTTPSetup appName httpConfigs = some s

/-- For static assets, the request URI goes on behind the first slash with a prefix that is
set up and two more segments. For other requests, the path is not one segment that starts
with the prefix of the application, and the host is a referrer. -/
def Positioned (s : Tables) (p : Text) (r : Request) : Handler → Prop
  | .staticAssets => ∃ x q a rest, r.requestURI = x ++ '/' :: (q ++ '/' :: (a ++ '/' :: rest)) ∧
      '/' ∉ x ∧ '/' ∉ q ∧ '/' ∉ a ∧ s.uriPrefixes.fwd q ≠ none
  | .jsRequests => (¬ ∃ x z, r.path = x ++ '/' :: (p ++ z) ∧ '/' ∉ x ∧ '/' ∉ z) ∧
      s.referrers.fwd r.host ≠ none

/-- The byte of `%` and two digits. -/
def escapedByte (d : Char × Char) : Option ℕ := do
  let high ← JsonText.hexValue d.1
  let low ← JsonText.hexValue d.2
  return 16 * high + low

/-- What stands in a request URI, and the path that `net/http` makes of it: a character stands
for itself or, unless it is a slash, is escaped as the bytes of its encoding. -/
inductive Spells : Text → Text → Prop
  | nil : Spells [] []
  | plain {raw path : Text} (c : Char) (h : Spells raw path) : Spells (c :: raw) (c :: path)
  | escaped {raw path : Text} (c : Char) (digits : List (Char × Char)) (hc : c ≠ '/')
      (hd : digits.map escapedByte = (String.utf8EncodeChar c).map fun u => some u.toNat)
      (h : Spells raw path) :
      Spells (digits.flatMap (fun d => ['%', d.1, d.2]) ++ raw) (c :: path)

/-- The request URI is a spelling of the path, with the query behind it. -/
def Request.Spelled (r : Request) (raw : Text) : Prop :=
  Spells raw r.path ∧ ∃ query, r.requestURI = raw ++ query

/-- Behind the first slash stands a prefix that is set up, as a segment of its own. -/
def Prefixed (s : Tables) (path : Text) : Prop :=
  ∃ x q rest, path = x ++ '/' :: (q ++ '/' :: rest) ∧ '/' ∉ x ∧ '/' ∉ q ∧
    s.uriPrefixes.fwd q ≠ none

/-- A request to the address of the entry, for something below its root URI path. -/
def Request.Below (r : Request) (c : HttpConfig) (p : Text) : Prop :=
  r.host = c.referrer ∧ ∃ rest query, r.path = '/' :: (p ++ '/' :: rest) ∧
    r.requestURI = r.path ++ query

section Match
variable {t rest s : Text}

lemma mustCompile_append (ht : '*' ∉ t) (hrest : rest.head? ≠ some '*') :
    ((mustCompile (t ++ rest)).first s).isSome ↔
      ∃ s', s = t ++ s' ∧ ((mustCompile rest).first s').isSome := by
  induction t generalizing s with
  | nil => simp
  | cons c t ih =>
    rw [List.mem_cons, not_or] at ht
    have hseq : mustCompile (c :: t ++ rest) =
        .seq (.one fun d => d = c) (mustCompile (t ++ rest)) := by
      have hhead : (t ++ rest).head? ≠ some '*' := by
        cases t with
        | nil => exact hrest
        | cons d t => exact fun h => ht.2 (Option.some.inj h ▸ List.mem_cons_self)
      rw [List.cons_append, mustCompile]
      intro rest' h
      rw [h] at hhead
      exact hhead rfl
    rw [hseq]
    cases s with
    | nil => simp [Pattern.first, Pattern.run]
    | cons d s =>
      by_cases hd : d = c
      · subst hd
        have hstep : (Pattern.seq (.one fun e => e = d) (mustCompile (t ++ rest))).first (d :: s) =
            ((mustCompile (t ++ rest)).first s).map (Match.andThen ⟨[d], [], s⟩) := by
          simp [Pattern.first, Pattern.run, List.head?_map]
        rw [hstep, Option.isSome_map, ih ht.2]
        simp
      · have hnone : (Pattern.seq (.one fun e => e = c) (mustCompile (t ++ rest))).first (d :: s) =
            none := by simp [Pattern.first, Pattern.run, hd]
        rw [hnone]
        simp [hd]

lemma matchString_iff {pattern : Pattern Char} :
    matchString pattern s = true ↔ ∃ u v, s = u ++ v ∧ (pattern.first v).isSome := by
  rw [matchString, Option.isSome_iff_ne_none, Ne, search_eq_none]
  simp [Option.isSome_iff_ne_none]

lemma matchString_append (ht : '*' ∉ t) (hrest : rest.head? ≠ some '*')
    (hall : ∀ s', ((mustCompile rest).first s').isSome) :
    matchString (mustCompile (t ++ rest)) s = true ↔ t <:+: s := by
  rw [matchString_iff]
  constructor
  · rintro ⟨u, v, rfl, h⟩
    obtain ⟨w, rfl, -⟩ := (mustCompile_append ht hrest).mp h
    exact ⟨u, w, by simp⟩
  · rintro ⟨u, w, rfl⟩
    exact ⟨u, t ++ w, by simp, (mustCompile_append ht hrest).mpr ⟨w, rfl, hall w⟩⟩

lemma first_star (c : Char) (s : Text) : ((mustCompile [c, '*']).first s).isSome := by
  have hcuts : cuts (fun d => decide (d = c)) s ≠ [] := by
    cases s with
    | nil => simp [cuts]
    | cons d s =>
      rw [cuts]
      split_ifs <;> simp
  obtain ⟨x, l, hx⟩ := List.exists_cons_of_ne_nil hcuts
  simp [mustCompile, Pattern.first, Pattern.run, hx]

end Match

section
variable {s : Tables} {appName p : Text} {httpConfigs : List HttpConfig} {c : HttpConfig}
  {r : Request} {handler : Handler}

lemma RootPath.star_notMem (h : RootPath c p) : '*' ∉ p := fun hm => h.plain '*' hm (by decide)

lemma RootPath.path_eq (h : RootPath c p) : c.path = some p := by
  have hempty : '/' ∉ ([] : Text) := List.not_mem_nil
  have hsplit : c.rootUriPath.splitOn '/' = [[], p, []] := by
    rw [h.eq]
    have h₁ := List.splitOn_append_cons_self_of_not_mem hempty (p ++ ['/'])
    have h₂ := List.splitOn_append_cons_self_of_not_mem h.slash_notMem []
    rw [List.nil_append] at h₁
    rw [h₁, h₂]
    rfl
  rw [HttpConfig.path, hsplit]
  rfl

lemma RootPath.matchString_static (h : RootPath c p) (path : Text) :
    matchString (mustCompile (c.rootUriPath ++ "static_assets/".toList)) path = true ↔
      '/' :: (p ++ '/' :: "static_assets/".toList) <:+: path := by
  have hstar : '*' ∉ '/' :: (p ++ '/' :: "static_assets/".toList) := by
    have hp := h.star_notMem
    simp [hp]
  have happend : matchString (mustCompile ('/' :: (p ++ '/' :: "static_assets/".toList) ++ [])) path
      = true ↔ '/' :: (p ++ '/' :: "static_assets/".toList) <:+: path :=
    matchString_append hstar (by simp)
      (fun s' => by simp [mustCompile, Pattern.first, Pattern.run])
  rw [List.append_nil] at happend
  rw [h.eq, ← happend]
  simp

lemma RootPath.matchString_js (h : RootPath c p) (path : Text) :
    matchString (mustCompile (c.rootUriPath ++ ['*'])) path = true ↔ '/' :: p <:+: path := by
  have hstar : '*' ∉ '/' :: p := by
    have hp := h.star_notMem
    simp [hp]
  have happend : matchString (mustCompile ('/' :: p ++ ['/', '*'])) path = true ↔
      '/' :: p <:+: path := matchString_append hstar (by simp) (first_star '/')
  rw [h.eq, ← happend]
  simp

lemma RootPath.infix_of_static (h : RootPath c p)
    (hroute : route (routes c) r = some .staticAssets) :
    '/' :: (p ++ '/' :: "static_assets/".toList) <:+: r.path := by
  obtain ⟨x, hfind, hx⟩ := Option.map_eq_some_iff.mp hroute
  have hmatch := List.find?_some hfind
  rcases List.mem_cons.mp (List.mem_of_find?_eq_some hfind) with rfl | hmem
  · exact (h.matchString_static r.path).mp hmatch
  · rw [List.mem_singleton.mp hmem] at hx
    contradiction

lemma RootPath.infix_of_js (h : RootPath c p) (hroute : route (routes c) r = some .jsRequests) :
    '/' :: p <:+: r.path := by
  obtain ⟨x, hfind, hx⟩ := Option.map_eq_some_iff.mp hroute
  have hmatch := List.find?_some hfind
  rcases List.mem_cons.mp (List.mem_of_find?_eq_some hfind) with rfl | hmem
  · contradiction
  · rw [List.mem_singleton.mp hmem] at hmatch
    exact (h.matchString_js r.path).mp hmatch

lemma SetUp.prefix_entered (hs : SetUp s appName httpConfigs) (hc : c ∈ httpConfigs)
    (h : RootPath c p) : s.uriPrefixes.fwd p = some appName := by
  obtain ⟨before, hs⟩ := hs
  have hp : p ∈ paths httpConfigs := List.mem_filterMap.mpr ⟨c, hc, h.path_eq⟩
  rw [(performAppHTTPSetup_spec hs).1, BackIndex.Index.putAll_fwd, if_pos hp]

lemma SetUp.referrer_entered (hs : SetUp s appName httpConfigs) (hc : c ∈ httpConfigs) :
    ∃ handle, s.referrers.fwd c.referrer = some handle := by
  obtain ⟨before, hs⟩ := hs
  have hr : c.referrer ∈ httpConfigs.map HttpConfig.referrer := List.mem_map_of_mem hc
  refine ⟨before.handles, ?_⟩
  rw [(performAppHTTPSetup_spec hs).2.1, Tables.loadApp, BackIndex.Index.putAll_fwd, if_pos hr]

lemma splitOn_segments {x q a : Text} (hx : '/' ∉ x) (hq : '/' ∉ q) (ha : '/' ∉ a) (rest : Text) :
    (x ++ '/' :: (q ++ '/' :: (a ++ '/' :: rest))).splitOn '/' =
      x :: q :: a :: rest.splitOn '/' := by
  rw [List.splitOn_append_cons_self_of_not_mem hx, List.splitOn_append_cons_self_of_not_mem hq,
    List.splitOn_append_cons_self_of_not_mem ha]

lemma preconditions_static_iff :
    Preconditions s r .staticAssets ↔ Positioned s p r .staticAssets := by
  constructor
  · rintro ⟨⟨assetName, h₃⟩, q, appName, h₁, hq⟩
    match hsplit : r.requestURI.splitOn '/' with
    | [] | [_] | [_, _] | [_, _, _] => simp [hsplit] at h₃
    | x :: q' :: a :: b :: rest =>
      rw [hsplit] at h₁
      obtain rfl : q' = q := Option.some.inj h₁
      obtain ⟨t₁, ht₁, hx, hsplit⟩ := exists_of_splitOn_eq_cons hsplit
      obtain ⟨t₂, ht₂, hq', hsplit⟩ := exists_of_splitOn_eq_cons hsplit
      obtain ⟨t₃, ht₃, ha, -⟩ := exists_of_splitOn_eq_cons hsplit
      exact ⟨x, q', a, t₃, by rw [ht₁, ht₂, ht₃], hx, hq', ha, by simp [hq]⟩
  · rintro ⟨x, q, a, rest, huri, hx, hq, ha, hne⟩
    obtain ⟨appName, happ⟩ := Option.ne_none_iff_exists'.mp hne
    obtain ⟨front, hrest⟩ := splitOn_eq_cons '/' rest
    rw [Preconditions, huri, splitOn_segments hx hq ha, hrest]
    exact ⟨⟨_, rfl⟩, q, appName, rfl, happ⟩

lemma count_segment (hp : '/' ∉ p) (x z : Text) :
    (x ++ '/' :: (p ++ z)).count '/' = x.count '/' + z.count '/' + 1 := by
  rw [List.count_append, List.count_cons_self, List.count_append, List.count_eq_zero_of_not_mem hp]
  omega

/-- A path with the prefix behind a slash has a second slash unless it is one segment that
starts with the prefix. -/
lemma one_lt_count_iff {path : Text} (hp : '/' ∉ p) (hin : '/' :: p <:+: path) :
    1 < path.count '/' ↔ ¬ ∃ x z, path = x ++ '/' :: (p ++ z) ∧ '/' ∉ x ∧ '/' ∉ z := by
  constructor
  · rintro hlt ⟨x, z, rfl, hx, hz⟩
    rw [count_segment hp, List.count_eq_zero_of_not_mem hx, List.count_eq_zero_of_not_mem hz] at hlt
    omega
  · intro h
    obtain ⟨x, z, rfl⟩ := hin
    rw [List.append_assoc, List.cons_append] at h ⊢
    rw [count_segment hp]
    by_contra hle
    have hx : x.count '/' = 0 := by omega
    have hz : z.count '/' = 0 := by omega
    exact h ⟨x, z, rfl, List.count_eq_zero.mp hx, List.count_eq_zero.mp hz⟩

lemma preconditions_js_iff (hp : '/' ∉ p) (hin : '/' :: p <:+: r.path) :
    Preconditions s r .jsRequests ↔ Positioned s p r .jsRequests := by
  have hindex : (∃ path, (r.path.splitOn '/')[2]? = some path) ↔ 1 < r.path.count '/' := by
    have hlength := length_splitOn '/' r.path
    constructor
    · rintro ⟨path, h⟩
      have hlt := (List.getElem?_eq_some_iff.mp h).1
      omega
    · intro h
      exact ⟨_, List.getElem?_eq_getElem (by omega)⟩
  rw [Preconditions, Positioned, hindex, one_lt_count_iff hp hin, Option.ne_none_iff_exists']

lemma preconditions_iff (h : RootPath c p) (hroute : route (routes c) r = some handler) :
    Preconditions s r handler ↔ Positioned s p r handler := by
  cases handler with
  | staticAssets => exact preconditions_static_iff
  | jsRequests => exact preconditions_js_iff h.slash_notMem (h.infix_of_js hroute)

/-- The handlers do what their preconditions are for. -/
lemma serveHTTP_ne_none {l : List Route} (bucket : Store Text StaticAsset)
    (h : ∀ handler, route l r = some handler → Preconditions s r handler) :
    serveHTTP s bucket l r ≠ none := by
  rw [serveHTTP]
  cases hroute : route l r with
  | none => simp
  | some handler =>
    cases handler with
    | staticAssets =>
      obtain ⟨x, q, a, rest, huri, hx, hq, ha, hne⟩ :=
        (preconditions_static_iff (p := [])).mp (h _ hroute)
      obtain ⟨appName, happ⟩ := Option.ne_none_iff_exists'.mp hne
      obtain ⟨front, hrest⟩ := splitOn_eq_cons '/' rest
      simp only [handleStaticAssets, splitOn_segments hx hq ha, huri, hrest, happ]
      cases r.assetMethod <;> simp
    | jsRequests =>
      obtain ⟨⟨path, h₂⟩, handle, hh⟩ := h _ hroute
      simp only [handleJsRequests]
      split_ifs <;> simp [h₂, hh]

lemma not_preconditions {l : List Route} (hroute : route l r = some handler)
    {b : Store Text StaticAsset} (hnone : serveHTTP s b l r = none) : ¬ Preconditions s r handler := by
  intro h
  apply serveHTTP_ne_none b _ hnone
  intro handler' hroute'
  rw [hroute] at hroute'
  exact Option.some.inj hroute' ▸ h

lemma RootPath.three_le_count (h : RootPath c p)
    (hroute : route (routes c) r = some .staticAssets) : 3 ≤ r.path.count '/' := by
  have hle := (h.infix_of_static hroute).sublist.count_le '/'
  have hp := List.count_eq_zero_of_not_mem h.slash_notMem
  rw [List.count_cons_self, List.count_append, hp] at hle
  exact hle

lemma Spells.refl (path : Text) : Spells path path := by
  induction path with
  | nil => exact .nil
  | cons c path ih => exact .plain c ih

lemma slash_ne_of_escapedByte {d : Char × Char} {n : ℕ} (h : escapedByte d = some n) :
    d.1 ≠ '/' ∧ d.2 ≠ '/' := by
  obtain ⟨high, h₁, h⟩ := Option.bind_eq_some_iff.mp h
  obtain ⟨low, h₂, -⟩ := Option.bind_eq_some_iff.mp h
  have hslash : JsonText.hexValue '/' = none := rfl
  constructor
  · intro hd
    rw [hd, hslash] at h₁
    contradiction
  · intro hd
    rw [hd, hslash] at h₂
    contradiction

lemma Spells.count_slash {raw path : Text} (h : Spells raw path) :
    raw.count '/' = path.count '/' := by
  induction h with
  | nil => rfl
  | plain c h ih => rw [List.count_cons, List.count_cons, ih]
  | escaped c digits hc hd h ih =>
    have hdigits : '/' ∉ digits.flatMap (fun d => ['%', d.1, d.2]) := by
      rw [List.mem_flatMap]
      rintro ⟨d, hmem, hslash⟩
      have hbyte : escapedByte d ∈ (String.utf8EncodeChar c).map fun u => some u.toNat :=
        hd ▸ List.mem_map_of_mem hmem
      obtain ⟨u, -, hu⟩ := List.mem_map.mp hbyte
      obtain ⟨h₁, h₂⟩ := slash_ne_of_escapedByte hu.symm
      simp [h₁.symm, h₂.symm] at hslash
    rw [List.count_append, List.count_eq_zero_of_not_mem hdigits, ih, List.count_cons_of_ne hc,
      Nat.zero_add]

/-- The path of a request for static assets has enough segments, so that, when no slash is
escaped in the request URI, all depends on the first of them. -/
lemma positioned_static_iff {raw : Text} (hcount : 3 ≤ r.path.count '/') (hraw : r.Spelled raw) :
    Positioned s p r .staticAssets ↔ Prefixed s raw := by
  obtain ⟨hspells, query, huri⟩ := hraw
  rw [← hspells.count_slash] at hcount
  have segment (t : Text) (h : 0 < t.count '/') : ∃ x rest, t = x ++ '/' :: rest ∧ '/' ∉ x :=
    List.eq_append_cons_of_mem (List.count_pos_iff.mp h)
  constructor
  · rintro ⟨x, q, a, rest, hr, hx, hq, -, hne⟩
    obtain ⟨x', rest₁, hpath, hx'⟩ := segment raw (by omega)
    rw [hpath, List.count_append, List.count_cons_self, List.count_eq_zero_of_not_mem hx'] at hcount
    obtain ⟨q', rest₂, rfl, hq'⟩ := segment rest₁ (by omega)
    rw [huri, hpath, List.append_assoc, List.cons_append, List.append_assoc, List.cons_append] at hr
    obtain ⟨rfl, hbehind⟩ := append_sep_inj hx' hx hr
    obtain ⟨rfl, -⟩ := append_sep_inj hq' hq hbehind
    exact ⟨x', q', rest₂, hpath, hx', hq', hne⟩
  · rintro ⟨x, q, rest, hpath, hx, hq, hne⟩
    rw [hpath, List.count_append, List.count_cons_self, List.count_append, List.count_cons_self,
      List.count_eq_zero_of_not_mem hx, List.count_eq_zero_of_not_mem hq] at hcount
    obtain ⟨a, rest', rfl, ha⟩ := segment rest (by omega)
    refine ⟨x, q, a, rest' ++ query, ?_, hx, hq, ha, hne⟩
    rw [huri, hpath]
    simp

lemma positioned_of_below (hs : SetUp s appName httpConfigs) (hc : c ∈ httpConfigs)
    (h : RootPath c p) (hroute : route (routes c) r = some handler) (hr : r.Below c p) :
    Positioned s p r handler := by
  obtain ⟨hhost, rest, query, hpath, huri⟩ := hr
  cases handler with
  | staticAssets =>
    apply (positioned_static_iff (h.three_le_count hroute) ⟨.refl _, query, huri⟩).mpr
    exact ⟨[], p, rest, hpath, List.not_mem_nil, h.slash_notMem, by simp [hs.prefix_entered hc h]⟩
  | jsRequests =>
    obtain ⟨handle, hhandle⟩ := hs.referrer_entered hc
    have hin := h.infix_of_js hroute
    have hcount : r.path.count '/' = rest.count '/' + 2 := by
      rw [hpath, ← List.nil_append ('/' :: (p ++ '/' :: rest)), count_segment h.slash_notMem,
        List.count_nil, List.count_cons_self]
      omega
    refine ⟨(one_lt_count_iff h.slash_notMem hin).mp (by omega), ?_⟩
    rw [hhost, hhandle]
    exact Option.some_ne_none handle

/-- A handler's preconditions hold exactly when the request is positioned for it, as the
requests to the own address of the application are. Static assets are indexed out of range only
where a slash of the path is escaped in the request URI, and otherwise all that is needed is
that the request URI starts with a prefix that is set up. -/
theorem route_preconditions_iff (hs : SetUp s appName httpConfigs) (hc : c ∈ httpConfigs)
    (h : RootPath c p) (hroute : route (routes c) r = some handler) :
    (Preconditions s r handler ↔ Positioned s p r handler) ∧
      (handler = .staticAssets → ∀ raw, r.Spelled raw →
        (Preconditions s r handler ↔ Prefixed s raw)) ∧
      (r.Below c p → Preconditions s r handler) := by
  refine ⟨preconditions_iff h hroute, ?_, fun hr => ?_⟩
  · rintro rfl raw hraw
    rw [preconditions_iff h hroute]
    exact positioned_static_iff (h.three_le_count hroute) hraw
  · exact (preconditions_iff h hroute).mpr (positioned_of_below hs hc h hroute hr)

/-- An application at `/p/` on port `80`, alone on its node. -/
def soleConfig : HttpConfig := ⟨"80".toList, "/p/".toList⟩

def soleTables : Tables :=
  ((Tables.initial.loadApp ['a'] [soleConfig]).startServer ['a']).enterPrefix ['a'] ['p']

lemma setUp_soleTables : SetUp soleTables ['a'] [soleConfig] := ⟨Tables.initial, rfl⟩

lemma rootPath_soleConfig : RootPath soleConfig ['p'] where
  eq := rfl
  ne_nil := by decide
  slash_notMem := by decide
  plain := List.forall_mem_singleton.mpr (by decide)

def getRequest (uri host : Text) : Request := ⟨"GET".toList, uri, uri, host, [], []⟩

/-- The prefix in the second segment, a path of one segment, and a host that is spelled
otherwise. -/
theorem routed_without_preconditions : SetUp soleTables ['a'] [soleConfig] ∧
    RootPath soleConfig ['p'] ∧
    (∃ handler, route (routes soleConfig)
        (getRequest "/x/p/static_assets/i".toList "localhost:80".toList) = some handler ∧
      ¬ Preconditions soleTables
        (getRequest "/x/p/static_assets/i".toList "localhost:80".toList) handler) ∧
    (∃ handler, route (routes soleConfig) (getRequest "/p".toList "localhost:80".toList) =
        some handler ∧
      ¬ Preconditions soleTables (getRequest "/p".toList "localhost:80".toList) handler) ∧
    ∃ handler, route (routes soleConfig) (getRequest "/p/i".toList "127.0.0.1:80".toList) =
        some handler ∧
      ¬ Preconditions soleTables (getRequest "/p/i".toList "127.0.0.1:80".toList) handler :=
  ⟨setUp_soleTables, rootPath_soleConfig,
    ⟨.staticAssets, rfl, not_preconditions (l := routes soleConfig) (b := empty) rfl rfl⟩,
    ⟨.jsRequests, rfl, not_preconditions (l := routes soleConfig) (b := empty) rfl rfl⟩,
    .jsRequests, rfl, not_preconditions (l := routes soleConfig) (b := empty) rfl rfl⟩

theorem sole_request_positioned :
    Preconditions soleTables (getRequest "/p/i".toList "localhost:80".toList) .jsRequests :=
  (route_preconditions_iff setUp_soleTables List.mem_cons_self
    rootPath_soleConfig rfl).2.2 ⟨rfl, ['i'], [], rfl, rfl⟩

end

end Eventing.Routing
