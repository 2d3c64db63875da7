import ObfuscationMap.Script
import ObfuscationMap.Script.Reader

/-!
Reading a script from its tokens. Declarations are read in order. At the top of a script, in the bodies of
classes and members and in blocks of aliases, tokens that start nothing are passed over; inside a
declaration every token has to be the one that is wanted. The word that opens a declaration is taken
before the reader of what follows it.

Classes may stand inside classes, as deep as they like. `classBody` keeps the classes whose bodies are
still open on a stack, so that one pass over the tokens reads them all.
-/

namespace ObfuscationMap

namespace Reader

def dottedParts : List Token → Except Mismatch (List String × List Token)
  | [] => .ok ([], [])
  | [t] => if t.kind = .mark .dot then .error ⟨.namePart, none⟩ else .ok ([], [t])
  | t :: p :: ts =>
    if t.kind = .mark .dot then
      if p.kind = .identifier then (dottedParts ts).map fun r => (p.lexeme :: r.1, r.2)
      else .error ⟨.namePart, some p⟩
    else .ok ([], t :: p :: ts)

def qualifiedName (wanted : Expected) : Reader String := do
  let first ← expect .identifier wanted
  let more ← (dottedParts : Reader (List String))
  return ".".intercalate (first :: more)

def metadataEntry : Reader (String × String) := do
  let key ← expect .identifier .metadataKey
  let _ ← expect (.mark .equals) .metadataEquals
  let value ← expect .text .metadataValue
  return (key, value)

def parameter : Reader Parameter := do
  let type ← qualifiedName .parameterType
  let varargs ← accept (.mark .varargs)
  return ⟨type, varargs⟩

theorem takes_dottedParts : Takes 0 (dottedParts : Reader (List String)) := by
  intro ts
  fun_induction dottedParts ts with
  | case1 => simp
  | case2 t hk => simp
  | case3 t hk => intro as rest h; cases h; simp
  | case4 t p ts hk hp ih =>
    intro as rest h
    cases hr : dottedParts ts with
    | error e => simp [hr, Except.map] at h
    | ok q =>
      obtain ⟨bs, rest'⟩ := q
      have := ih bs rest' hr
      simp [hr, Except.map] at h
      rw [← h.2]
      simp
      omega
  | case5 => simp
  | case6 t p ts hk => intro as rest h; cases h; simp

theorem takes_qualifiedName (wanted : Expected) : (qualifiedName wanted).Takes 1 :=
  (takes_expect _ _).bind fun _ => takes_dottedParts.followedBy fun _ => takes_pure _

theorem takes_metadataEntry : metadataEntry.Takes 1 :=
  (takes_expect _ _).bind fun _ => (takes_expect _ _).followedBy fun _ => (takes_expect _ _).followedBy fun _ =>
    takes_pure _

theorem takes_parameter : parameter.Takes 1 :=
  (takes_qualifiedName _).bind fun _ => (takes_accept _).followedBy fun _ => takes_pure _

def enclosed {α : Type} (opening closing : Mark) (wanted : Expected) (item : Reader α)
    (h : item.Takes 1) : Reader (List α) := do
  if ← accept (.mark opening) then
    if ← accept (.mark closing) then return []
    let items ← (separated item h : Reader (List α))
    let _ ← expect (.mark closing) wanted
    return items
  else return []

theorem takes_enclosed {α : Type} (opening closing : Mark) (wanted : Expected) (item : Reader α)
    (h : item.Takes 1) : (enclosed opening closing wanted item h).Takes 0 := by
  refine (takes_accept _).bind fun b => ?_
  cases b
  · exact takes_pure _
  refine (takes_accept _).bind fun b => ?_
  cases b
  · exact (takes_separated item h).followedBy fun _ => (takes_expect _ _).followedBy fun _ => takes_pure _
  · exact takes_pure _

/-- `[key = "value", …]`, or nothing. -/
def metadata : Reader Metadata :=
  OrderedMap.ofList <$> enclosed .leftBracket .rightBracket .metadataEnd metadataEntry takes_metadataEntry

/-- `(type, type...)`, or nothing. -/
def parameters : Reader (List Parameter) :=
  enclosed .leftParen .rightParen .parametersEnd parameter takes_parameter

theorem takes_metadata : metadata.Takes 0 := (takes_enclosed _ _ _ _ _).map _

theorem takes_parameters : parameters.Takes 0 := takes_enclosed _ _ _ _ _

def removedAlias (marker : TokenKind) : Reader Alias := do
  let _ ← expect marker .removedVersion
  let version ← expect .identifier .removedVersion
  let _ ← expect (.mark .semicolon) .removedEnd
  return .gone version

def liveAlias : Reader Alias := do
  let version ← expect .identifier .aliasName
  let name ← expect .identifier .aliasName
  let data ← metadata
  let _ ← expect (.mark .semicolon) .aliasEnd
  return .live version name data

/-- What a token starts inside a block of aliases. There `removed` is a name like any other, so its
spelling tells. -/
def aliasItem? (t : Token) : Option (Reader Alias) :=
  if t.kind = .keyword .removed then some (removedAlias t.kind)
  else if t.kind = .identifier then
    some (if t.lexeme = Keyword.removed.spelling then removedAlias t.kind else liveAlias)
  else none

theorem takes_removedAlias (marker : TokenKind) : (removedAlias marker).Takes 1 :=
  (takes_expect _ _).bind fun _ => (takes_expect _ _).followedBy fun _ => (takes_expect _ _).followedBy fun _ =>
    takes_pure _

theorem takes_liveAlias : liveAlias.Takes 1 :=
  (takes_expect _ _).bind fun _ => (takes_expect _ _).followedBy fun _ => takes_metadata.followedBy fun _ =>
    (takes_expect _ _).followedBy fun _ => takes_pure _

theorem takes_aliasItem? (t : Token) (r : Reader Alias) (h : aliasItem? t = some r) : r.Takes 1 := by
  unfold aliasItem? at h
  split at h
  · cases h; exact takes_removedAlias _
  · split at h
    · cases h
      split
      · exact takes_removedAlias _
      · exact takes_liveAlias
    · cases h

def aliasesBlock : Reader (List Alias) := do
  let _ ← expect (.keyword .aliases) .aliasesBody
  let _ ← expect (.mark .leftBrace) .aliasesBody
  let aliases ← (itemsToBrace aliasItem? takes_aliasItem? : Reader (List Alias))
  let _ ← expect (.mark .rightBrace) .aliasesEnd
  return aliases

theorem takes_aliasesBlock : aliasesBlock.Takes 1 :=
  (takes_expect _ _).bind fun _ => (takes_expect _ _).followedBy fun _ =>
    (takes_itemsToBrace _ _).followedBy fun _ => (takes_expect _ _).followedBy fun _ => takes_pure _

def memberItem? (t : Token) : Option (Reader (List Alias)) :=
  if t.kind = .keyword .aliases then some aliasesBlock else none

theorem takes_memberItem? (t : Token) (r : Reader (List Alias)) (h : memberItem? t = some r) :
    r.Takes 1 := by
  unfold memberItem? at h
  split at h
  · cases h; exact takes_aliasesBlock
  · cases h

def memberBody (s : MemberSort) : Reader (List Alias) := do
  if ← accept (.mark .leftBrace) then
    let blocks ← (itemsToBrace memberItem? takes_memberItem? : Reader (List (List Alias)))
    let _ ← expect (.mark .rightBrace) (.memberBodyEnd s)
    return blocks.flatten
  else
    let _ ← expect (.mark .semicolon) (.memberEnd s)
    return []

theorem takes_memberBody (s : MemberSort) : (memberBody s).Takes 0 := by
  refine (takes_accept _).bind fun b => ?_
  cases b
  · exact (takes_expect _ _).followedBy fun _ => takes_pure _
  · exact (takes_itemsToBrace _ _).followedBy fun _ => (takes_expect _ _).followedBy fun _ => takes_pure _

def obfuscatedMember (s : MemberSort) : Reader (Option String) :=
  after (.mark .leftArrow) (expect .identifier (.obfuscatedMemberName s))

theorem takes_obfuscatedMember (s : MemberSort) : (obfuscatedMember s).Takes 0 :=
  takes_after _ (takes_expect _ _)

def method (javadoc : Option String) : Reader MethodDecl := do
  let name ← expect .identifier (.memberName .method)
  let parameters ← parameters
  let obfuscated ← obfuscatedMember .method
  let data ← metadata
  let aliases ← memberBody .method
  return ⟨name, parameters, obfuscated, javadoc, aliases, data⟩

theorem takes_method (javadoc : Option String) : (method javadoc).Takes 0 :=
  (takes_expect _ _).followedBy fun _ => takes_parameters.followedBy fun _ => (takes_obfuscatedMember _).followedBy
    fun _ => takes_metadata.followedBy fun _ => (takes_memberBody _).followedBy fun _ => takes_pure _

def field : Reader FieldDecl := do
  let name ← expect .identifier (.memberName .field)
  let obfuscated ← obfuscatedMember .field
  let data ← metadata
  let aliases ← memberBody .field
  return ⟨name, obfuscated, aliases, data⟩

theorem takes_field : field.Takes 0 :=
  (takes_expect _ _).followedBy fun _ => (takes_obfuscatedMember _).followedBy
    fun _ => takes_metadata.followedBy fun _ => (takes_memberBody _).followedBy fun _ => takes_pure _

def classHeader : Reader ClassDecl := do
  let name ← expect .identifier .className
  let obfuscated ← after (.mark .leftArrow) (qualifiedName .obfuscatedClassName)
  let data ← metadata
  let _ ← expect (.mark .leftBrace) .classBody
  return .ofHeader name obfuscated data

theorem takes_classHeader : classHeader.Takes 0 :=
  (takes_expect _ _).followedBy fun _ => (takes_after _ (takes_qualifiedName _)).followedBy
    fun _ => takes_metadata.followedBy fun _ => (takes_expect _ _).followedBy fun _ => takes_pure _

def importDecl : Reader Import := do
  let path ← qualifiedName .importPath
  let asName ← after (.keyword .asWord) (expect .identifier .importAlias)
  let _ ← expect (.mark .semicolon) .importEnd
  return ⟨path, asName⟩

theorem takes_importDecl : importDecl.Takes 0 :=
  (takes_qualifiedName _).followedBy fun _ => (takes_after _ (takes_expect _ _)).followedBy
    fun _ => (takes_expect _ _).followedBy fun _ => takes_pure _

def packageDecl : Reader (Option String) := do
  if ← accept (.keyword .pkg) then
    let name ← qualifiedName .packageName
    let _ ← expect (.mark .semicolon) .packageEnd
    return some name
  else return none

/-- Reads the body of `current`, which stands inside the bodies of `outer`, innermost first, and then
the rest of theirs. `javadoc` is the documentation that stands right before the next token. -/
def classBody (outer : List ClassDecl) (current : ClassDecl) (javadoc : Option String) :
    List Token → Except Mismatch (ClassDecl × List Token)
  | [] => .error ⟨.classEnd, none⟩
  | t :: ts =>
    match t.kind with
    | .mark .rightBrace =>
      match outer with
      | [] => .ok (current, ts)
      | parent :: outer => classBody outer (parent.addInner current) none ts
    | .keyword .md =>
      match h : method javadoc ts with
      | .error e => .error e
      | .ok (m, rest) =>
        have : rest.length < (t :: ts).length := Nat.lt_succ_of_le (takes_method javadoc ts m rest h)
        classBody outer (current.addMethod m) none rest
    | .keyword .fd =>
      match h : field ts with
      | .error e => .error e
      | .ok (f, rest) =>
        have : rest.length < (t :: ts).length := Nat.lt_succ_of_le (takes_field ts f rest h)
        classBody outer (current.addField f) none rest
    | .keyword .classWord =>
      match h : classHeader ts with
      | .error e => .error e
      | .ok (c, rest) =>
        have : rest.length < (t :: ts).length := Nat.lt_succ_of_le (takes_classHeader ts c rest h)
        classBody (current :: outer) c none rest
    | .keyword .aliases =>
      match h : aliasesBlock (t :: ts) with
      | .error e => .error e
      | .ok (as, rest) =>
        have : rest.length < (t :: ts).length := takes_aliasesBlock (t :: ts) as rest h
        classBody outer (current.addAliases as) none rest
    | kind =>
      classBody outer current (if kind = .javadoc then some t.lexeme else none) ts
termination_by ts => ts.length
decreasing_by all_goals (simp only [List.length_cons] at *; omega)

theorem takes_classBody (outer : List ClassDecl) (current : ClassDecl) (javadoc : Option String) :
    Takes 1 (classBody outer current javadoc : Reader ClassDecl) := by
  intro ts
  fun_induction classBody outer current javadoc ts with
  | case1 => simp
  | case2 => intro c rest h; cases h; simp
  | case3 => grind
  | case4 => simp
  | case5 => grind
  | case6 => simp
  | case7 => grind
  | case8 => simp
  | case9 => grind
  | case10 => simp
  | case11 => grind
  | case12 => grind

def classDecl : Reader ClassDecl := do
  let c ← classHeader
  (classBody [] c none : Reader ClassDecl)

theorem takes_classDecl : classDecl.Takes 0 :=
  takes_classHeader.bind fun c => (takes_classBody [] c none).weaken (by omega)

def declarations : List Token → Except Mismatch (List Import × List ClassDecl)
  | [] => .ok ([], [])
  | t :: ts =>
    match t.kind with
    | .keyword .importWord =>
      match h : importDecl ts with
      | .error e => .error e
      | .ok (i, rest) =>
        have : rest.length < (t :: ts).length := Nat.lt_succ_of_le (takes_importDecl ts i rest h)
        (declarations rest).map fun r => (i :: r.1, r.2)
    | .keyword .classWord =>
      match h : classDecl ts with
      | .error e => .error e
      | .ok (c, rest) =>
        have : rest.length < (t :: ts).length := Nat.lt_succ_of_le (takes_classDecl ts c rest h)
        (declarations rest).map fun r => (r.1, c :: r.2)
    | _ => declarations ts
termination_by ts => ts.length
decreasing_by all_goals (simp only [List.length_cons] at *; omega)

end Reader

/-- Reads a script from tokens none of which is the end of input. Comments may stand before the
package; anything else there leaves the script without one. -/
def Script.read (ts : List Token) : Except Mismatch Script :=
  match Reader.packageDecl (ts.dropWhile fun t => t.kind.isComment) with
  | .error e => .error e
  | .ok (package, rest) => (Reader.declarations rest).map fun r => ⟨package, r.1, r.2⟩

/-- Where the input ends: at the token that says so, else at the last token, else at the start. -/
def inputEnd (ts : List Token) : Position :=
  match ts.find? fun t => t.kind == .eof with
  | some t => t.position
  | none => (ts.getLast?.map (·.position)).getD .start

/-- Reads a script from tokens; what stands behind an end of input does not count. -/
def parse (ts : List Token) : Except ParseError Script :=
  (Script.read (ts.takeWhile fun t => t.kind != .eof)).mapError (·.toParseError (inputEnd ts))

end ObfuscationMap
