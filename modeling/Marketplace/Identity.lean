/-
  Identities: the employee a verified token stands for, read from the database
  and cached in the process for a minute.

  A call of `resolveTokenSubject` runs to its database read without
  interruption, and from the answer to its end; between the two, other calls
  run, accounts change and time passes.
-/
import Marketplace.Users
import Marketplace.Lib.InsertionMap

namespace Marketplace

namespace UsersService

/-- How long a resolved identity is trusted before re-reading it from the database. -/
def IDENTITY_CACHE_TTL_MS : ℕ := 60 * 1000

def IDENTITY_CACHE_MAX_ENTRIES : ℕ := 5000

structure CachedIdentity where
  user : AuthUser
  expiresAt : ℕ

abbrev IdentityCache := InsertionMap String CachedIdentity

/-- `resolveTokenSubject` up to the database read: the identity it returns at once. -/
def cachedIdentity (cache : IdentityCache) (now : ℕ) (userId : String) : Option AuthUser :=
  (cache.get userId).bind fun cached => if cached.expiresAt > now then some cached.user else none

/-- The cache with room for one more entry. -/
def makeRoom (cache : IdentityCache) : IdentityCache :=
  if cache.size ≥ IDENTITY_CACHE_MAX_ENTRIES then
    match cache.oldest with
    | some oldestKey => cache.delete oldestKey
    | none => cache
  else cache

/-- `resolveTokenSubject` after the database read: the cache it leaves, and what it returns; `none` if
    the account was deleted. -/
def resolveRow (cache : IdentityCache) (now : ℕ) (userId : String) :
    Option User → IdentityCache × Option AuthUser
  | none => (cache.delete userId, none)
  | some row =>
    let user : AuthUser := ⟨userId, row.fullName, row.department⟩
    ((makeRoom cache).set userId ⟨user, now + IDENTITY_CACHE_TTL_MS⟩, some user)

end UsersService

namespace Identity

open UsersService

/-- Where a call of `resolveTokenSubject` is. -/
inductive Phase where
  /-- the query has been sent -/
  | reading
  /-- the database has read the row, the answer has not arrived -/
  | answered (row : Option User)
  | returned (user : Option AuthUser)
  /-- the query has failed -/
  | failed
  deriving DecidableEq

/-- The accounts, the cache, the clock in milliseconds, and the calls with the ids they are for. -/
structure State where
  accounts : String → Option User
  cache : IdentityCache
  now : ℕ
  calls : List (String × Phase)

inductive Action where
  /-- `resolveTokenSubject(userId)` is called -/
  | call (userId : String)
  /-- the database runs the query of a call -/
  | read (i : ℕ)
  /-- the answer arrives -/
  | resume (i : ℕ)
  | fail (i : ℕ)
  /-- an account is deleted, created or changed -/
  | account (userId : String) (row : Option User)
  | tick

namespace State

/-- The process starts. -/
def init (accounts : String → Option User) : State := ⟨accounts, .empty, 0, []⟩

/-- One step; `none` if the action is not possible. -/
def step (s : State) : Action → Option State
  | .call userId =>
    let phase := match cachedIdentity s.cache s.now userId with
      | some user => Phase.returned (some user)
      | none => .reading
    some { s with calls := s.calls ++ [(userId, phase)] }
  | .read i =>
    match s.calls[i]? with
    | some (userId, .reading) =>
      some { s with calls := s.calls.set i (userId, .answered (s.accounts userId)) }
    | _ => none
  | .resume i =>
    match s.calls[i]? with
    | some (userId, .answered row) =>
      let (cache, user) := resolveRow s.cache s.now userId row
      some { s with cache, calls := s.calls.set i (userId, .returned user) }
    | _ => none
  | .fail i =>
    match s.calls[i]? with
    | some (userId, .reading) => some { s with calls := s.calls.set i (userId, .failed) }
    | _ => none
  | .account userId row => some { s with accounts := Function.update s.accounts userId row }
  | .tick => some { s with now := s.now + 1 }

/-- The state after the actions, if they are all possible. -/
def run (s : State) : List Action → Option State
  | [] => some s
  | a :: as => (s.step a).bind fun s' => s'.run as

end State

end Identity

end Marketplace
