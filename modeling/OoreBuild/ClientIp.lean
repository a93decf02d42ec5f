import OoreBuild.Lib.Text

/-!
# The address of a client

Some requests are only answered to clients on the same host. A proxy on that host connects from a
loopback address for clients anywhere, so the address of such a request is looked for in the headers
that proxies set. Any of them can carry an address that the client made up: an address that is not
loopback wins, wherever it stands on the first line of one of these headers. A header that comes on
several lines is read on the first one only, and not at all where that is no visible ASCII.
-/

namespace OoreBuild

namespace ClientIp

open Text

variable {ι : Type} (isLoopback : ι → Bool) (parseIp : Text → Option ι)

/-- The headers in order; a value holds the bytes of a header as characters. -/
abbrev HeaderMap := List (Text × Text)

/-- The first value of a header, where it is visible ASCII. -/
def HeaderMap.text (headers : HeaderMap) (name : Text) : Option Text :=
  ((headers.find? fun header => header.1 = name).map Prod.snd).filter fun value =>
    value.all fun c => c = '\t' || (32 ≤ c.toNat && c.toNat < 127)

def parseIpFromHeader (headers : HeaderMap) (name : Text) : Option ι :=
  (((headers.text name).map trim).filter (· ≠ [])).bind parseIp

/-- The text up to the last occurrence of a character, and what follows it. -/
def rsplitOnce (c : Char) (t : Text) : Option (Text × Text) :=
  (splitFirst [c] t.reverse).map fun parts => (parts.2.reverse, parts.1.reverse)

def trimMatches (c : Char) (t : Text) : Text := (t.dropWhile (· = c)).rdropWhile (· = c)

/-- An address in a list: maybe quoted, in brackets or with a port. -/
def parseIpToken (raw : Text) : Option ι :=
  let value := trim raw
  if value = [] then none
  else
    let value := trim (trimMatches '"' value)
    if value = [] ∨ toAsciiLowercase value = ("unknown" : Text) then none
    else
      match (stripPrefix "[" value).bind (splitFirst "]") with
      | some (inside, _) => parseIp inside
      | none =>
        match parseIp value with
        | some ip => some ip
        | none => if contains value "." then (rsplitOnce ':' value).bind (parseIp ·.1) else none

/-- The loop over the addresses of a header: the first one that is not loopback, or else the first
one. -/
def pick (first : Option ι) : List (Option ι) → Option ι
  | [] => first
  | none :: rest => pick first rest
  | some ip :: rest =>
    if isLoopback ip = false then some ip else pick (first.or (some ip)) rest

/-- The addresses of a list of clients and proxies. -/
def forwardedTokens (raw : Text) : List (Option ι) :=
  (split (· = ',') raw).map (parseIpToken parseIp)

/-- The addresses of the entries of the standard header. -/
def forwardedParts (raw : Text) : List (Option ι) :=
  (split (· = ',') raw).flatMap fun entry => (split (· = ';') entry).map fun part =>
    (stripPrefix "for=" (trim part)).bind (parseIpToken parseIp)

def parseXForwardedFor (headers : HeaderMap) : Option ι :=
  (headers.text "x-forwarded-for").bind fun raw =>
    pick isLoopback none (forwardedTokens parseIp raw)

def parseForwardedFor (headers : HeaderMap) : Option ι :=
  (headers.text "forwarded").bind fun raw => pick isLoopback none (forwardedParts parseIp raw)

def candidates (headers : HeaderMap) : List ι :=
  [parseIpFromHeader parseIp headers "cf-connecting-ip",
    parseForwardedFor isLoopback parseIp headers, parseXForwardedFor isLoopback parseIp headers,
    parseIpFromHeader parseIp headers "x-real-ip"].filterMap id

def effectiveClientIp (peer : ι) (headers : HeaderMap) : ι :=
  if isLoopback peer = false then peer
  else
    match (candidates isLoopback parseIp headers).find? (isLoopback · = false) with
    | some ip => ip
    | none => (candidates isLoopback parseIp headers).head?.getD peer

/-! ## The addresses that the headers name -/

/-- The first line of a header, where it is visible ASCII, names the address, anywhere in it. -/
inductive Named (headers : HeaderMap) (ip : ι) : Prop
  | cloudflare (h : parseIpFromHeader parseIp headers "cf-connecting-ip" = some ip)
  | forwarded {raw : Text} (hraw : headers.text "forwarded" = some raw)
      (h : some ip ∈ forwardedParts parseIp raw)
  | xForwardedFor {raw : Text} (hraw : headers.text "x-forwarded-for" = some raw)
      (h : some ip ∈ forwardedTokens parseIp raw)
  | realIp (h : parseIpFromHeader parseIp headers "x-real-ip" = some ip)

section Pick

variable {isLoopback parseIp} {first : Option ι} {tokens : List (Option ι)} {ip : ι}

/-- What the loop picks stands in the header. -/
theorem mem_of_pick (h : pick isLoopback first tokens = some ip) :
    some ip ∈ tokens ∨ first = some ip := by
  induction tokens generalizing first with
  | nil => exact Or.inr h
  | cons token tokens ih =>
    cases token with
    | none => exact (ih h).imp_left (List.mem_cons_of_mem _)
    | some other =>
      rw [pick] at h
      split_ifs at h with hpublic
      · exact Or.inl (h ▸ List.mem_cons_self)
      · rcases ih h with hmem | hfirst
        · exact Or.inl (List.mem_cons_of_mem _ hmem)
        · cases first with
          | none => exact Or.inl (hfirst ▸ List.mem_cons_self)
          | some kept => exact Or.inr hfirst

/-- The loop picks a loopback address only where every address is one. -/
theorem pick_of_public (first : Option ι) (hip : some ip ∈ tokens)
    (hpublic : isLoopback ip = false) :
    ∃ other, pick isLoopback first tokens = some other ∧ isLoopback other = false := by
  induction tokens generalizing first with
  | nil => cases hip
  | cons token tokens ih =>
    cases token with
    | none => exact ih first ((List.mem_cons.mp hip).resolve_left nofun)
    | some other =>
      rw [pick]
      split_ifs with hother
      · exact ⟨other, rfl, hother⟩
      · refine ih _ ((List.mem_cons.mp hip).resolve_left fun heq => hother ?_)
        rw [← Option.some.inj heq]
        exact hpublic

/-- The candidates are named. -/
theorem named_of_mem_candidates {headers : HeaderMap}
    (h : ip ∈ candidates isLoopback parseIp headers) : Named parseIp headers ip := by
  obtain ⟨found, hfound, rfl⟩ := List.mem_filterMap.mp h
  have hparts : ∀ {name : Text} {f : Text → List (Option ι)},
      (headers.text name).bind (fun raw => pick isLoopback none (f raw)) = some ip →
        ∃ raw, headers.text name = some raw ∧ some ip ∈ f raw := fun hpick => by
    obtain ⟨raw, hraw, hpick⟩ := Option.bind_eq_some_iff.mp hpick
    exact ⟨raw, hraw, (mem_of_pick hpick).resolve_right nofun⟩
  simp only [List.mem_cons, List.not_mem_nil, or_false] at hfound
  rcases hfound with hfound | hfound | hfound | hfound
  · exact .cloudflare hfound.symm
  · obtain ⟨raw, hraw, hmem⟩ := hparts hfound.symm
    exact .forwarded hraw hmem
  · obtain ⟨raw, hraw, hmem⟩ := hparts hfound.symm
    exact .xForwardedFor hraw hmem
  · exact .realIp hfound.symm

/-- An address that is not loopback gives a candidate that is not. -/
theorem Named.exists_candidate {headers : HeaderMap} (h : Named parseIp headers ip)
    (hpublic : isLoopback ip = false) :
    ∃ other ∈ candidates isLoopback parseIp headers, isLoopback other = false := by
  cases h with
  | cloudflare h =>
    exact ⟨ip, List.mem_filterMap.mpr ⟨_, List.mem_cons_self, h⟩, hpublic⟩
  | forwarded hraw h =>
    obtain ⟨other, hpick, hother⟩ := pick_of_public none h hpublic
    have hfound : parseForwardedFor isLoopback parseIp headers = some other :=
      Option.bind_eq_some_iff.mpr ⟨_, hraw, hpick⟩
    exact ⟨other, List.mem_filterMap.mpr
      ⟨_, List.mem_cons_of_mem _ List.mem_cons_self, hfound⟩, hother⟩
  | xForwardedFor hraw h =>
    obtain ⟨other, hpick, hother⟩ := pick_of_public none h hpublic
    have hfound : parseXForwardedFor isLoopback parseIp headers = some other :=
      Option.bind_eq_some_iff.mpr ⟨_, hraw, hpick⟩
    exact ⟨other, List.mem_filterMap.mpr
      ⟨_, List.mem_cons_of_mem _ (List.mem_cons_of_mem _ List.mem_cons_self), hfound⟩, hother⟩
  | realIp h =>
    exact ⟨ip, List.mem_filterMap.mpr ⟨_, List.mem_cons_of_mem _ (List.mem_cons_of_mem _
      (List.mem_cons_of_mem _ List.mem_cons_self)), h⟩, hpublic⟩

end Pick

/-- The address of a request is loopback exactly where its peer is and every address is that the
first line of a forwarding header names at any place, where the line is visible ASCII; and it is the
peer or one that a loopback peer so names. This holds for any reading of addresses. -/
theorem effective_ip_loopback_iff (peer : ι) (headers : HeaderMap) :
    (isLoopback (effectiveClientIp isLoopback parseIp peer headers) = true ↔
        isLoopback peer = true ∧ ∀ ip, Named parseIp headers ip → isLoopback ip = true) ∧
      (effectiveClientIp isLoopback parseIp peer headers = peer ∨
        isLoopback peer = true ∧
          Named parseIp headers (effectiveClientIp isLoopback parseIp peer headers)) := by
  unfold effectiveClientIp
  split_ifs with hpeer
  · refine ⟨iff_of_false (Bool.eq_false_iff.mp hpeer) fun h => ?_, Or.inl rfl⟩
    rw [hpeer] at h
    cases h.1
  · have hpeer : isLoopback peer = true := by simpa using hpeer
    cases hfind : (candidates isLoopback parseIp headers).find? (isLoopback · = false) with
    | some ip =>
      have hpublic : isLoopback ip = false := by simpa using List.find?_some hfind
      have hnamed : Named parseIp headers ip :=
        named_of_mem_candidates (List.mem_of_find?_eq_some hfind)
      refine ⟨iff_of_false (Bool.eq_false_iff.mp hpublic) fun h => ?_, Or.inr ⟨hpeer, hnamed⟩⟩
      exact Bool.eq_false_iff.mp hpublic (h.2 ip hnamed)
    | none =>
      have hall : ∀ ip ∈ candidates isLoopback parseIp headers, isLoopback ip = true := by
        simpa using List.find?_eq_none.mp hfind
      have hnamed : ∀ ip, Named parseIp headers ip → isLoopback ip = true := fun ip hip => by
        by_contra hpublic
        obtain ⟨other, hother, hnot⟩ := hip.exists_candidate (Bool.eq_false_iff.mpr hpublic)
        rw [hall other hother] at hnot
        cases hnot
      cases hhead : (candidates isLoopback parseIp headers).head? with
      | none => exact ⟨iff_of_true hpeer ⟨hpeer, hnamed⟩, Or.inl rfl⟩
      | some ip =>
        have hmem := List.mem_of_head? hhead
        exact ⟨iff_of_true (hall ip hmem) ⟨hpeer, hnamed⟩,
          Or.inr ⟨hpeer, named_of_mem_candidates hmem⟩⟩

-- The second line of a header is not looked at; here an address is its text.
example : effectiveClientIp (· = ("127.0.0.1" : Text)) some "127.0.0.1"
    [("x-forwarded-for", "127.0.0.1"), ("x-forwarded-for", "10.1.2.3")] = "127.0.0.1" := by
  decide

end ClientIp

end OoreBuild
