/-
  The image URLs the application accepts: those of its own public bucket.
-/
import Marketplace.Dto

namespace Marketplace.StorageService

variable (cfg : Config)

def publicUrlPrefix : String :=
  stripSlashes cfg.supabaseUrl ++ "/storage/v1/object/public/" ++ cfg.bucket ++ "/"

/-- True when the URL points to an object in this app's public bucket. -/
def isManagedUrl (url : String) : Bool :=
  startsWith url (publicUrlPrefix cfg) && !includesDots url

/-- Prevents clients from storing arbitrary external URLs. -/
@[irreducible] def assertManagedUrls (urls : List String) : Except Exception Unit :=
  let foreign := urls.filter fun url => !isManagedUrl cfg url
  if foreign.length > 0 then
    .error (.badRequest ("Image URLs must be uploaded via POST /api/v1/storage/images first. Invalid: " ++
      ", ".intercalate foreign))
  else .ok ()

theorem assertManagedUrls_ok {urls : List String} :
    assertManagedUrls cfg urls = .ok () ↔ ∀ url ∈ urls, isManagedUrl cfg url = true := by
  simp [assertManagedUrls]

end Marketplace.StorageService
